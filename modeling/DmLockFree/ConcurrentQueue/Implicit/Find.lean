import DmLockFree.ConcurrentQueue.Implicit.Consume

/-! A consumer finds the blocks of its claim in the block index, although the producer
inserts blocks and replaces the ring meanwhile. -/

set_option autoImplicit false

namespace DmLockFree.ConcurrentQueue.ImplicitProducer

open Library Program

variable {Consumer T : Type} {ghost : Ghost Consumer T} {producer after : ImplicitProducer T}
  {events : List (Event Consumer T)} {consumer : Consumer} {pointer entry number : Nat}
  {position first stop tail : UInt64} {walk : Walk} {claim : Claim}

theorem reads_unique {other : Nat} {found again : BlockIndexEntry}
    (reads : producer.Reads pointer position entry found)
    (too : producer.Reads pointer position other again) : other = entry ∧ again = found := by
  obtain ⟨header, here, place, value⟩ := reads
  obtain ⟨_, same, elsewhere, entryValue⟩ := too
  cases here.symm.trans same
  cases place.symm.trans elsewhere
  cases value.symm.trans entryValue
  exact ⟨rfl, rfl⟩

theorem blockBase_ofNat (index : Nat) : blockBase (.ofNat index) = baseOf (index / 32) :=
  blockBase_eq index

/-- The entry at the place of a block is the one of the block. -/
theorem reads_place {slots : Slots} {used : Nat → Option Nat} {header : BlockIndexHeader}
    (indexed : Indexed producer.index slots used)
    (here : producer.index.header pointer = some header)
    (low : (slots.window pointer).low ≤ number) (below : number < (slots.window pointer).reach)
    (place : position.toNat = (slots.window pointer).place header number)
    {found : BlockIndexEntry}
    (there : producer.index.entries[slots.slot number]? = some found) :
    producer.Reads pointer position (slots.slot number) found := by
  refine ⟨header, here, ?_, there⟩
  rw [BlockIndexHeader.entry, place]
  exact (indexed.covers pointer header here).slots number low below

theorem Follows.reads (follows : Follows ghost producer claim walk number)
    (indexed : Indexed producer.index ghost.slots ghost.used) {block : Nat}
    (stands : ghost.used number = some block) (within : number ≤ (claim.stop - 1) / 32) :
    producer.Reads walk.pointer walk.position (ghost.slots.slot number)
      ⟨baseOf number, some block⟩ := by
  obtain ⟨header, here, low, reach, place⟩ := follows.ring
  obtain ⟨_, _, _, _, _, _, _, found⟩ := indexed.stands number block stands
  exact reads_place indexed here low (Nat.lt_of_le_of_lt within reach) place found

section Find

variable (sound : Sound events ghost producer)
  (ordered : taken events ≤ (published events).length)

include sound ordered

/-- The first block of a claim stands in the block index. -/
theorem Sound.claim_used (whole : (ghost.claim consumer).Whole first stop) :
    ∃ block, ghost.stage ((ghost.claim consumer).index / 32) = .opened block := by
  obtain ⟨_, _, _, start, some⟩ := whole
  exact sound.claim_opened ordered (Nat.le_of_eq start) some

theorem Sound.claim_last (whole : (ghost.claim consumer).Whole first stop) :
    ∃ block, ghost.stage (((ghost.claim consumer).stop - 1) / 32) = .opened block := by
  obtain ⟨_, _, _, start, some⟩ := whole
  have above : (ghost.claim consumer).start ≤ (ghost.claim consumer).stop - 1 := by omega
  exact sound.claim_opened ordered above (by omega)

theorem find_index (whole : (ghost.claim consumer).Whole first stop) :
    producer.index.blockIndex ≠ none := by
  obtain ⟨block, opened⟩ := sound.claim_used ordered whole
  obtain ⟨_, _, current, _⟩ := sound.indexed.stands _ block (used_of_opened opened)
  rw [current]
  exact nofun

theorem find_loadIndex (whole : (ghost.claim consumer).Whole first stop)
    (current : producer.index.blockIndex = some pointer) :
    ∃ header, producer.index.header pointer = some header ∧
      (ghost.slots.window pointer).low ≤ (ghost.claim consumer).index / 32 ∧
      ((ghost.claim consumer).stop - 1) / 32 < (ghost.slots.window pointer).top := by
  obtain ⟨_, opened⟩ := sound.claim_used ordered whole
  obtain ⟨_, last⟩ := sound.claim_last ordered whole
  obtain ⟨header, here, _⟩ := sound.indexed.current pointer current
  obtain ⟨low, _⟩ := sound.indexed.standing current here (used_of_opened opened)
  obtain ⟨_, top, _⟩ := sound.indexed.standing current here (used_of_opened last)
  exact ⟨header, here, low, top⟩

/-- The tail that a consumer has read belongs to a block which is not before its claim,
and the entry there still has the base of this block. -/
theorem find_key {header : BlockIndexHeader} (whole : (ghost.claim consumer).Whole first stop)
    (here : producer.index.header pointer = some header)
    (low : (ghost.slots.window pointer).low ≤ (ghost.claim consumer).index / 32)
    (above : (ghost.claim consumer).index / 32 ≤ number)
    (below : number < (ghost.slots.window pointer).reach)
    (place : tail.toNat = (ghost.slots.window pointer).place header number) :
    ∃ value, producer.Reads pointer tail (ghost.slots.slot number) ⟨baseOf number, value⟩ := by
  obtain ⟨block, opened⟩ := sound.claim_used ordered whole
  have reach := sound.indexed.reach_le pointer header here
  obtain ⟨value, found⟩ := sound.indexed.keyed _ block (used_of_opened opened) number above
    (Nat.lt_of_lt_of_le below reach)
  exact ⟨value, reads_place sound.indexed here (Nat.le_trans low above) below place found⟩

/-- So the distance to this block leads to the first block of the claim. -/
theorem find_locate {header : BlockIndexHeader} (whole : (ghost.claim consumer).Whole first stop)
    (here : producer.index.header pointer = some header)
    (above : (ghost.claim consumer).index / 32 ≤ number)
    (below : number < (ghost.slots.window pointer).reach)
    (place : tail.toNat = (ghost.slots.window pointer).place header number) :
    (header.locate tail (baseOf number) (blockBase first)).toNat =
      (ghost.slots.window pointer).place header ((ghost.claim consumer).index / 32) := by
  obtain ⟨_, opened⟩ := sound.claim_used ordered whole
  obtain ⟨current, ring, now, there, _, _, close, _⟩ :=
    sound.indexed.stands _ _ (used_of_opened opened)
  have covers := sound.indexed.covers pointer header here
  have most := (sound.indexed.covers current ring there).le
  have reach := sound.indexed.reach_le pointer header here
  have last := sound.indexed.reach_le_top now
  obtain ⟨begins, _, same, _⟩ := whole
  rw [begins, same, blockBase_ofNat]
  exact covers.locate place above (by omega)

end Find

/-- The end of the part of a claim that is in one block, as the code computes it. -/
theorem endIndex_eq {taken : Nat} (owned : Owned ghost taken)
    (follows : walk.stop = .ofNat (ghost.claim consumer).stop)
    (some : (ghost.claim consumer).start < (ghost.claim consumer).stop) :
    walk.endIndex (.ofNat (ghost.claim consumer).start) = .ofNat (ghost.claim consumer).cut := by
  have first := owned.first_le consumer
  have close := owned.close consumer
  have block : blockBase (.ofNat (ghost.claim consumer).start) + BLOCK_SIZE =
      .ofNat (32 * ((ghost.claim consumer).start / 32) + 32) := by
    rw [blockBase_ofNat, UInt64.ofNat_add]
    rfl
  have less := circularLessThan_iff
    (by omega : (ghost.claim consumer).stop ≤ 32 * ((ghost.claim consumer).start / 32) + 32 + 2 ^ 63)
    (by omega)
  rw [Walk.endIndex, block, follows, Claim.cut]
  by_cases short : (ghost.claim consumer).stop < 32 * ((ghost.claim consumer).start / 32) + 32
  · rw [if_pos (less.mpr short), Nat.min_eq_left (Nat.le_of_lt short)]
  · rw [if_neg (fun small => short (less.mp small)), Nat.min_eq_right (Nat.le_of_not_lt short)]

/-- Indices of one claim are equal if their words are. -/
theorem index_inj {taken left right : Nat} (owned : Owned ghost taken)
    (above : (ghost.claim consumer).first ≤ left) (below : left ≤ (ghost.claim consumer).stop)
    (since : (ghost.claim consumer).first ≤ right) (under : right ≤ (ghost.claim consumer).stop) :
    UInt64.ofNat left = .ofNat right ↔ left = right := by
  have close := owned.close consumer
  rw [← UInt64.toNat_inj, UInt64.toNat_ofNat', UInt64.toNat_ofNat']
  omega

end DmLockFree.ConcurrentQueue.ImplicitProducer
