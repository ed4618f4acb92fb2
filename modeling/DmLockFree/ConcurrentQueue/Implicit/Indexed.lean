import DmLockFree.ConcurrentQueue.Implicit.Ring

/-! What the operations on a `BlockIndex` keep. Only entries in which no block stands
are given to a new block, so whoever works on a block still finds it. -/

set_option autoImplicit false

namespace DmLockFree.ConcurrentQueue

variable {index : BlockIndex} {slots : Slots} {used : Nat → Option Nat} {pointer entry number : Nat}
  {header : BlockIndexHeader} {newTail : UInt64}

/-- No block stands in the entry. -/
def Slots.Vacant (slots : Slots) (used : Nat → Option Nat) (entry : Nat) : Prop :=
  ∀ number block, used number = some block → slots.slot number ≠ entry

/-- The entry is given to the block behind the tail. -/
def Slots.give (slots : Slots) (pointer entry : Nat) : Slots where
  slot := Function.update slots.slot (slots.window pointer).top entry
  window := Function.update slots.window pointer
    { slots.window pointer with reach := (slots.window pointer).top + 1 }
  reach := (slots.window pointer).top + 1

/-- The tail of a ring has moved. -/
def Slots.move (slots : Slots) (pointer top : Nat) : Slots :=
  { slots with
    window := Function.update slots.window pointer { slots.window pointer with top } }

theorem getElem?_setKey (index : BlockIndex) (entry : Nat) (key : UInt64) (other : Nat) :
    (index.setKey entry key).entries[other]? =
      if entry = other then index.entries[other]?.map fun old => ⟨key, old.value⟩
      else index.entries[other]? := by
  rw [BlockIndex.setKey, List.getElem?_modify]
  split
  case isTrue same => rfl
  case isFalse apart => exact Option.map_id' ..

theorem getElem?_setValue (index : BlockIndex) (entry : Nat) (value : Option Nat) (other : Nat) :
    (index.setValue entry value).entries[other]? =
      if entry = other then index.entries[other]?.map fun old => ⟨old.key, value⟩
      else index.entries[other]? := by
  rw [BlockIndex.setValue, List.getElem?_modify]
  split
  case isTrue same => rfl
  case isFalse apart => exact Option.map_id' ..

namespace Indexed

/-- The current ring. -/
theorem ring (indexed : Indexed index slots used) (current : index.blockIndex = some pointer)
    (here : index.header pointer = some header) :
    Covers index.entries.length slots.slot header (index.tails pointer) (slots.window pointer) ∧
      (slots.window pointer).reach = slots.reach ∧
      index.nextBlockIndexCapacity.toNat = 2 * header.capacity.toNat := by
  obtain ⟨_, again, reach, _, next⟩ := indexed.current pointer current
  cases here.symm.trans again
  exact ⟨indexed.covers pointer header here, reach, next⟩

theorem reach_le_top (indexed : Indexed index slots used)
    (current : index.blockIndex = some pointer) : slots.reach ≤ (slots.window pointer).top + 1 := by
  obtain ⟨_, _, _, last, _⟩ := indexed.current pointer current
  exact last

/-- Where a block that stands in its entry is. -/
theorem standing (indexed : Indexed index slots used) (current : index.blockIndex = some pointer)
    (here : index.header pointer = some header) {block : Nat} (stands : used number = some block) :
    (slots.window pointer).low ≤ number ∧ number < (slots.window pointer).top ∧
      (slots.window pointer).top ≤ number + header.capacity.toNat ∧
      index.entries[slots.slot number]? = some ⟨baseOf number, some block⟩ := by
  obtain ⟨_, _, again, present, facts⟩ := indexed.stands number block stands
  cases current.symm.trans again
  cases here.symm.trans present
  exact facts

/-- Two blocks that stand have different entries. -/
theorem used_inj (indexed : Indexed index slots used) {other first second : Nat}
    (stands : used number = some first) (too : used other = some second)
    (same : slots.slot number = slots.slot other) : number = other := by
  obtain ⟨pointer, header, current, here, _, below, close, found⟩ :=
    indexed.stands number first stands
  obtain ⟨_, less, near, alike⟩ := indexed.standing current here too
  have most := (indexed.ring current here).1.le
  rw [same, alike] at found
  simp only [Option.some.injEq, BlockIndexEntry.mk.injEq] at found
  exact (baseOf_inj found.1 (by omega) (by omega)).symm

/-- Fewer blocks stand. -/
theorem drop (indexed : Indexed index slots used) {fewer : Nat → Option Nat}
    (rest : ∀ number block, fewer number = some block → used number = some block) :
    Indexed index slots fewer :=
  ⟨indexed.covers, indexed.reach_le, indexed.current,
    fun number block stands => indexed.stands number block (rest number block stands),
    fun first block stands => indexed.keyed first block (rest first block stands)⟩

theorem clear (indexed : Indexed index slots used) (vacant : slots.Vacant used entry) :
    Indexed (index.setValue entry none) slots used := by
  refine ⟨fun pointer header here => ?_, indexed.reach_le, indexed.current,
    fun number block stands => ?_, fun first block stands number above below => ?_⟩
  · have same : (index.setValue entry none).entries.length = index.entries.length :=
      List.length_modify ..
    rw [same]
    exact indexed.covers pointer header here
  · obtain ⟨pointer, header, current, here, low, top, close, found⟩ :=
      indexed.stands number block stands
    refine ⟨pointer, header, current, here, low, top, close, ?_⟩
    rw [getElem?_setValue, if_neg (vacant number block stands).symm]
    exact found
  · obtain ⟨value, found⟩ := indexed.keyed first block stands number above below
    rw [getElem?_setValue, found]
    split
    case isTrue same => exact ⟨none, rfl⟩
    case isFalse apart => exact ⟨value, rfl⟩

/-- The block is taken out of its entry. -/
theorem release (indexed : Indexed index slots used) {block : Nat}
    (stands : used number = some block) :
    Indexed (index.setValue (slots.slot number) none) slots
      (Function.update used number none) := by
  have rest : ∀ other block, Function.update used number none other = some block →
      other ≠ number ∧ used other = some block := by
    intro other block there
    by_cases same : other = number
    · subst same
      rw [Function.update_self] at there
      cases there
    · rw [Function.update_of_ne same] at there
      exact ⟨same, there⟩
  apply (indexed.drop fun other block there => (rest other block there).2).clear
  intro other second there same
  obtain ⟨apart, there⟩ := rest other second there
  exact apart (indexed.used_inj there stands same)

section Give

variable (indexed : Indexed index slots used) (current : index.blockIndex = some pointer)
  (here : index.header pointer = some header)
  (behind : header.index[(slots.window pointer).place header (slots.window pointer).top]? =
    some entry)

include indexed current here behind

/-- The entries of earlier blocks are the same; also that of a block which was inserted
here before and taken back. -/
theorem give_slot (below : number < slots.reach) :
    (slots.give pointer entry).slot number = slots.slot number := by
  obtain ⟨covers, reach, _⟩ := indexed.ring current here
  by_cases same : number = (slots.window pointer).top
  · subst same
    have already := covers.slots _ covers.low_le (by rw [reach]; exact below)
    simp only [Slots.give, Function.update_self]
    exact Option.some.inj (behind.symm.trans already)
  · exact Function.update_of_ne same ..

/-- From a block that stands on no earlier block has the entry. -/
theorem entry_ne (vacant : slots.Vacant used entry) {first block : Nat}
    (stands : used first = some block) (above : first ≤ number)
    (below : number < (slots.window pointer).top) : slots.slot number ≠ entry := by
  intro same
  obtain ⟨covers, _, _⟩ := indexed.ring current here
  obtain ⟨low, _, close, _⟩ := indexed.standing current here stands
  have there := covers.slots number (Nat.le_trans low above)
    (Nat.lt_of_lt_of_le below covers.top_le)
  rw [same] at there
  by_cases equal : number = first
  · subst equal
    exact vacant number block stands same
  · have := covers.entry_inj there behind (Nat.le_of_lt below) (by omega)
    omega

theorem give_covers {other : Nat} {ring : BlockIndexHeader}
    (there : index.header other = some ring) :
    Covers index.entries.length (slots.give pointer entry).slot ring (index.tails other)
      ((slots.give pointer entry).window other) := by
  have slot : ∀ number, number < slots.reach →
      (slots.give pointer entry).slot number = slots.slot number :=
    fun _ below => indexed.give_slot current here behind below
  by_cases same : other = pointer
  · subst same
    cases here.symm.trans there
    obtain ⟨covers, reach, _⟩ := indexed.ring current here
    have window : (slots.give other entry).window other =
        { slots.window other with reach := (slots.window other).top + 1 } :=
      Function.update_self ..
    rw [window]
    refine ⟨covers.power, covers.length, covers.nodup, covers.bounded, fun number low below => ?_,
      covers.low_le, Nat.le_succ _, covers.short, covers.tail⟩
    change header.index[(slots.window other).place header number]? = _
    by_cases top : number = (slots.window other).top
    · subst top
      simp only [Slots.give, Function.update_self]
      exact behind
    · change number < (slots.window other).top + 1 at below
      have within : number < (slots.window other).reach :=
        Nat.lt_of_lt_of_le (by omega : number < (slots.window other).top) covers.top_le
      rw [slot number (by rw [← reach]; exact within)]
      exact covers.slots number low within
  · have others := indexed.covers other ring there
    have window : (slots.give pointer entry).window other = slots.window other :=
      Function.update_of_ne same ..
    rw [window]
    refine ⟨others.power, others.length, others.nodup, others.bounded, fun number low below => ?_,
      others.low_le, others.top_le, others.short, others.tail⟩
    rw [slot number (Nat.lt_of_lt_of_le below (indexed.reach_le other ring there))]
    exact others.slots number low below

/-- The block behind the tail gets an entry. -/
theorem give (vacant : slots.Vacant used entry)
    (last : slots.reach ≤ (slots.window pointer).top + 1) :
    Indexed (index.setKey entry (baseOf (slots.window pointer).top)) (slots.give pointer entry)
      used := by
  obtain ⟨covers, reach, next⟩ := indexed.ring current here
  have length : (index.setKey entry (baseOf (slots.window pointer).top)).entries.length =
      index.entries.length := List.length_modify ..
  have window : (slots.give pointer entry).window pointer =
      { slots.window pointer with reach := (slots.window pointer).top + 1 } :=
    Function.update_self ..
  refine ⟨fun other ring there => ?_, fun other ring there => ?_, fun other again => ?_,
    fun number block stands => ?_, fun first block stands number above below => ?_⟩
  · rw [length]
    exact indexed.give_covers current here behind there
  · by_cases same : other = pointer
    · subst same
      rw [window]
      exact Nat.le_refl _
    · have window : (slots.give pointer entry).window other = slots.window other :=
        Function.update_of_ne same ..
      rw [window]
      exact Nat.le_trans (indexed.reach_le other ring there) last
  · cases current.symm.trans again
    refine ⟨header, here, ?_, ?_, next⟩
    · rw [window]
      rfl
    · rw [window]
      exact Nat.le_refl _
  · obtain ⟨low, below, close, found⟩ := indexed.standing current here stands
    refine ⟨pointer, header, current, here, ?_, ?_, ?_, ?_⟩
    · rw [window]
      exact low
    · rw [window]
      exact below
    · rw [window]
      exact close
    · have within : number < slots.reach := by
        rw [← reach]
        exact Nat.lt_of_lt_of_le below covers.top_le
      rw [indexed.give_slot current here behind within, getElem?_setKey,
        if_neg (vacant number block stands).symm]
      exact found
  · by_cases top : number = (slots.window pointer).top
    · subst top
      have bound := covers.bounded entry (List.mem_of_getElem? behind)
      simp only [Slots.give, Function.update_self]
      rw [getElem?_setKey, if_pos rfl, List.getElem?_eq_getElem bound]
      exact ⟨_, rfl⟩
    · change number < (slots.window pointer).top + 1 at below
      have less : number < (slots.window pointer).top := by omega
      have within : number < slots.reach := by
        rw [← reach]
        exact Nat.lt_of_lt_of_le less covers.top_le
      obtain ⟨value, found⟩ := indexed.keyed first block stands number above within
      have apart := indexed.entry_ne current here behind vacant stands above less
      refine ⟨value, ?_⟩
      rw [indexed.give_slot current here behind within, getElem?_setKey, if_neg apart.symm]
      exact found

end Give

/-- The tail of the current ring is stored. -/
theorem move (indexed : Indexed index slots used) (current : index.blockIndex = some pointer)
    (here : index.header pointer = some header) {top : Nat}
    (low : (slots.window pointer).low ≤ top) (reach : top ≤ (slots.window pointer).reach)
    (last : slots.reach ≤ top + 1) (short : newTail.toNat < header.capacity.toNat)
    (tail : (newTail.toNat + 1) % header.capacity.toNat = (slots.window pointer).place header top)
    (fits : ∀ number block, used number = some block →
      number < top ∧ top ≤ number + header.capacity.toNat) :
    Indexed (index.setTail pointer newTail) (slots.move pointer top) used := by
  have window : (slots.move pointer top).window pointer =
      { slots.window pointer with top } := Function.update_self ..
  have others : ∀ other, other ≠ pointer →
      (slots.move pointer top).window other = slots.window other :=
    fun other apart => Function.update_of_ne apart ..
  refine ⟨fun other ring there => ?_, fun other ring there => ?_, fun other again => ?_,
    fun number block stands => ?_, indexed.keyed⟩
  · by_cases same : other = pointer
    · subst same
      cases here.symm.trans there
      have covers := indexed.covers other header here
      rw [window]
      refine ⟨covers.power, covers.length, covers.nodup, covers.bounded, covers.slots, low, reach,
        ?_, ?_⟩
      · simpa only [BlockIndex.setTail, Function.update_self] using short
      · simp only [BlockIndex.setTail, Function.update_self]
        exact tail
    · have covers := indexed.covers other ring there
      rw [others other same]
      refine ⟨covers.power, covers.length, covers.nodup, covers.bounded, covers.slots,
        covers.low_le, covers.top_le, ?_, ?_⟩
      · simpa only [BlockIndex.setTail, Function.update_of_ne same] using covers.short
      · simpa only [BlockIndex.setTail, Function.update_of_ne same] using covers.tail
  · by_cases same : other = pointer
    · subst same
      rw [window]
      exact indexed.reach_le other ring there
    · rw [others other same]
      exact indexed.reach_le other ring there
  · cases current.symm.trans again
    obtain ⟨ring, there, whole, _, next⟩ := indexed.current pointer current
    refine ⟨ring, there, ?_, ?_, next⟩
    · rw [window]
      exact whole
    · rw [window]
      exact last
  · obtain ⟨above, _, _, found⟩ := indexed.standing current here stands
    obtain ⟨below, close⟩ := fits number block stands
    refine ⟨pointer, header, current, here, ?_, ?_, ?_, found⟩
    · rw [window]
      exact above
    · rw [window]
      exact below
    · rw [window]
      exact close

/-- The tail comes to the block that was given an entry. -/
theorem raise (indexed : Indexed index slots used) (current : index.blockIndex = some pointer)
    (here : index.header pointer = some header)
    (given : slots.reach = (slots.window pointer).top + 1)
    (vacant : slots.Vacant used (slots.slot (slots.window pointer).top))
    (tail : newTail.toNat = (slots.window pointer).place header (slots.window pointer).top) :
    Indexed (index.setTail pointer newTail) (slots.move pointer ((slots.window pointer).top + 1))
      used := by
  obtain ⟨covers, reach, _⟩ := indexed.ring current here
  have behind := covers.slots _ covers.low_le (by omega)
  refine indexed.move current here (Nat.le_succ_of_le covers.low_le) (by omega) (by omega) ?_ ?_
    fun number block stands => ?_
  · rw [tail]
    exact Nat.mod_lt _ covers.positive
  · rw [tail, Window.place, Window.place, Nat.mod_add_mod, Nat.add_assoc]
  · obtain ⟨low, below, close, _⟩ := indexed.standing current here stands
    refine ⟨Nat.lt_succ_of_lt below, ?_⟩
    by_contra far
    have whole : (slots.window pointer).top = number + header.capacity.toNat := by omega
    have there := covers.slots number low (Nat.lt_of_lt_of_le below covers.top_le)
    have same : (slots.window pointer).place header (slots.window pointer).top =
        (slots.window pointer).place header number := by
      rw [Window.place, Window.place, whole, ← Nat.add_assoc, Nat.add_mod_right]
    rw [same, there] at behind
    exact vacant number block stands (Option.some.inj behind)

/-- The tail goes back to the block before. -/
theorem lower (indexed : Indexed index slots used) (current : index.blockIndex = some pointer)
    (here : index.header pointer = some header) (last : (slots.window pointer).top = number + 1)
    (low : (slots.window pointer).low ≤ number) (given : slots.reach ≤ number + 1)
    (empty : used number = none) :
    Indexed (index.setTail pointer (header.mask (index.tails pointer - 1)))
      (slots.move pointer number) used := by
  obtain ⟨covers, reach, _⟩ := indexed.ring current here
  obtain ⟨short, tail⟩ := covers.before_tail last
  have top := covers.top_le
  refine indexed.move current here low (by omega) given short tail fun other block stands => ?_
  obtain ⟨_, below, close, _⟩ := indexed.standing current here stands
  have apart : other ≠ number := by
    intro same
    rw [same, empty] at stands
    cases stands
  omega

/-- The last block comes into its entry. -/
theorem fill (indexed : Indexed index slots used) (current : index.blockIndex = some pointer)
    (here : index.header pointer = some header) (last : (slots.window pointer).top = number + 1)
    (low : (slots.window pointer).low ≤ number) (given : slots.reach = number + 1)
    (vacant : slots.Vacant used (slots.slot number)) {value : Option Nat}
    (key : index.entries[slots.slot number]? = some ⟨baseOf number, value⟩) (block : Nat) :
    Indexed (index.setValue (slots.slot number) (some block)) slots
      (Function.update used number (some block)) := by
  have length : (index.setValue (slots.slot number) (some block)).entries.length =
      index.entries.length := List.length_modify ..
  have filled : (index.setValue (slots.slot number) (some block)).entries[slots.slot number]? =
      some ⟨baseOf number, some block⟩ := by
    rw [getElem?_setValue, if_pos rfl, key]
    rfl
  refine ⟨fun other ring there => ?_, indexed.reach_le, indexed.current,
    fun other second stands => ?_, fun first second stands other above below => ?_⟩
  · rw [length]
    exact indexed.covers other ring there
  · by_cases same : other = number
    · subst same
      rw [Function.update_self] at stands
      cases stands
      have positive := (indexed.ring current here).1.positive
      exact ⟨pointer, header, current, here, low, by omega, by omega, filled⟩
    · rw [Function.update_of_ne same] at stands
      obtain ⟨low, below, close, found⟩ := indexed.standing current here stands
      refine ⟨pointer, header, current, here, low, below, close, ?_⟩
      rw [getElem?_setValue, if_neg (vacant other second stands).symm]
      exact found
  · by_cases same : first = number
    · subst same
      obtain rfl : other = first := by omega
      exact ⟨_, filled⟩
    · rw [Function.update_of_ne same] at stands
      obtain ⟨value, found⟩ := indexed.keyed first second stands other above below
      rw [getElem?_setValue, found]
      split
      case isTrue _ => exact ⟨some block, rfl⟩
      case isFalse _ => exact ⟨value, rfl⟩

end Indexed

end DmLockFree.ConcurrentQueue
