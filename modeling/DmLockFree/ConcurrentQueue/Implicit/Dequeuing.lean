import DmLockFree.ConcurrentQueue.Implicit.Release

/-! Every step of a consumer keeps the blocks of an `ImplicitProducer` sound. -/

set_option autoImplicit false

namespace DmLockFree.ConcurrentQueue.ImplicitProducer

open Library Program

variable {Consumer T : Type} {ghost : Ghost Consumer T}
  {producer after : ImplicitProducer T} {events : List (Event Consumer T)} {consumer : Consumer}
  {pc next : Pc T} {output : Output T}

/-- What the counters say of the indices. -/
structure Accounts (events : List (Event Consumer T)) (producer : ImplicitProducer T) (pc : Pc T) :
    Prop where
  tail : producer.tailIndex = .ofNat (published events).length
  head : producer.headIndex = .ofNat (taken events)
  ordered : taken events ≤ (published events).length
  room : (published events).length < taken events + 2 ^ 63
  claim : ∀ amount, pc = .deqClaim amount →
    0 < amount.toNat ∧ taken events + amount.toNat ≤ (published events).length
  current : ∀ word, pc.tail = some word → word = .ofNat (published events).length

section Steps

variable (sound : Sound events ghost producer) (facts : ConsumerFacts consumer ghost producer pc)
  (ordered : taken events ≤ (published events).length)

include sound

theorem step_loadIndexTail {first stop : UInt64} {pointer : Nat}
    (facts : ConsumerFacts consumer ghost producer (.findLoadTail first stop pointer)) :
    (Pc.findLoadKey first stop pointer (producer.index.tails pointer) : Pc T).Dequeuing consumer
      ghost producer (ghost.claim consumer) := by
  obtain ⟨whole, header, here, low, top⟩ := facts.stands
  have covers := sound.indexed.covers pointer header here
  have reach := covers.top_le
  obtain ⟨_, _, _, _, some⟩ := id whole
  obtain ⟨number, last⟩ : ∃ number, (ghost.slots.window pointer).top = number + 1 :=
    Nat.exists_eq_succ_of_ne_zero (by omega)
  exact ⟨whole, header, number, here, low, by omega, by omega, by omega, covers.tail_place last⟩

include ordered

theorem step_loadKey {first stop tail : UInt64} {pointer entry : Nat} {header : BlockIndexHeader}
    {found : BlockIndexEntry}
    (facts : ConsumerFacts consumer ghost producer (.findLoadKey first stop pointer tail))
    (here : producer.index.header pointer = some header)
    (finds : producer.index.Finds header tail entry found) :
    (Pc.findAssertKey ⟨first, stop, pointer, header.locate tail found.key (blockBase first)⟩ :
      Pc T).Dequeuing consumer ghost producer (ghost.claim consumer) := by
  obtain ⟨whole, _, number, again, low, reach, above, below, place⟩ := facts.stands
  cases here.symm.trans again
  obtain ⟨value, reads⟩ := find_key sound ordered whole here low above below place
  obtain ⟨_, same⟩ := reads_unique reads ⟨header, here, finds⟩
  subst same
  exact ⟨whole, whole.1, whole.2.1, header, here, low, reach,
    find_locate sound ordered whole here above below place⟩

theorem tail_aborts {first stop tail : UInt64} {pointer : Nat}
    (facts : ConsumerFacts consumer ghost producer (.findLoadKey first stop pointer tail))
    (wrong : ∀ entry found, producer.Reads pointer tail entry found →
      found.key = INVALID_BLOCK_BASE) : False := by
  obtain ⟨whole, _, number, here, low, _, above, below, place⟩ := facts.stands
  obtain ⟨_, reads⟩ := find_key sound ordered whole here low above below place
  exact baseOf_ne_invalid number (wrong _ _ reads)

/-- What stands at the position of a walk. -/
theorem walk_reads {walk : Walk} {number : Nat}
    (follows : Follows ghost producer (ghost.claim consumer) walk number)
    (within : (ghost.claim consumer).index / 32 = number)
    (start : (ghost.claim consumer).start = (ghost.claim consumer).index)
    (some : (ghost.claim consumer).index < (ghost.claim consumer).stop) :
    ∃ block, ghost.stage number = .opened block ∧
      producer.Reads walk.pointer walk.position (ghost.slots.slot number)
        ⟨baseOf number, Option.some block⟩ := by
  obtain ⟨block, opened⟩ := sound.claim_opened ordered (Nat.le_of_eq start) some
  rw [within] at opened
  exact ⟨block, opened, follows.reads sound.indexed (used_of_opened opened) (by omega)⟩

theorem step_loadBlock {walk : Walk} {index : UInt64} {entry block : Nat}
    {found : BlockIndexEntry}
    (facts : ConsumerFacts consumer ghost producer (.deqLoadBlock walk index))
    (reads : producer.Reads walk.pointer walk.position entry found)
    (value : found.value = some block) :
    (Pc.deqMove walk index index (walk.endIndex index) entry block : Pc T).Dequeuing consumer ghost
      producer (ghost.claim consumer) := by
  obtain ⟨follows, word, start, some⟩ := facts.stands
  obtain ⟨other, opened, there⟩ := walk_reads sound ordered follows rfl start some
  obtain ⟨rfl, rfl⟩ := reads_unique there reads
  cases value
  rw [← start] at follows opened word
  refine ⟨⟨follows, opened, by rw [start], word, by rw [word, start], ?_, by omega⟩, ?_⟩
  · rw [word]
    exact endIndex_eq sound.owned follows.stop (by omega)
  · rw [Claim.cut]
    omega

omit ordered in
theorem not_loadBlockEmpty {walk : Walk} {index : UInt64}
    (facts : ConsumerFacts consumer ghost producer (.deqLoadBlock walk index)) :
    index ≠ walk.endIndex index := by
  obtain ⟨follows, word, start, some⟩ := facts.stands
  have first := sound.owned.first_le consumer
  have ends : (ghost.claim consumer).cut ≤ (ghost.claim consumer).stop := Nat.min_le_left ..
  have more : (ghost.claim consumer).start < (ghost.claim consumer).cut := by
    rw [Claim.cut]
    omega
  rw [word, ← start, endIndex_eq sound.owned follows.stop (by omega), Ne,
    index_inj sound.owned (by omega) (by omega) (by omega) ends]
  omega

end Steps

section Moves

variable [DecidableEq Consumer] {walk : Walk} {start index endIndex : UInt64} {entry block : Nat}

theorem Works.shift (works : Works ghost producer (ghost.claim consumer) walk start index endIndex
    entry block) (same : after.index = producer.index) :
    Works (ghost.shift consumer) after ((ghost.shift consumer).claim consumer) walk start
      (index + 1) endIndex entry block := by
  obtain ⟨header, here, low, reach, place⟩ := works.follows.ring
  rw [← same] at here
  rw [shift_claim_self]
  refine ⟨⟨works.follows.first, works.follows.stop, header, here, low, reach, place⟩, works.opened,
    works.slot, works.start, ?_, works.endIndex, works.some⟩
  rw [works.index, UInt64.ofNat_add]
  rfl

omit [DecidableEq Consumer] in
/-- Whether the element is the last one before the cut. -/
theorem Works.next_word (works : Works ghost producer (ghost.claim consumer) walk start index
    endIndex entry block) {taken : Nat} (owned : Owned ghost taken)
    (more : (ghost.claim consumer).index < (ghost.claim consumer).cut) :
    index + 1 = .ofNat (ghost.claim consumer).cut ↔
      (ghost.claim consumer).index + 1 = (ghost.claim consumer).cut := by
  have first := owned.first_le consumer
  have goes := owned.start_le consumer
  have ends : (ghost.claim consumer).cut ≤ (ghost.claim consumer).stop := Nat.min_le_left ..
  rw [works.index, ← index_inj owned (by omega : _ ≤ (ghost.claim consumer).index + 1) (by omega)
    (by omega) ends, UInt64.ofNat_add]
  rfl

/-- The word to which the count of a block goes. -/
theorem setEmpty_count (sound : Sound events ghost producer)
    (facts : ConsumerFacts consumer ghost producer (.deqSetEmpty walk start endIndex entry block)) :
    (producer.blocks block).elementsCompletelyDequeued + (endIndex - start) =
      .ofNat (ghost.newCount consumer) := by
  obtain ⟨works, whole⟩ := facts.stands
  have ordered := sound.owned.start_le consumer
  have cut : (ghost.claim consumer).index ≤ 32 * ((ghost.claim consumer).start / 32) + 32 := by
    rw [whole, Claim.cut]
    exact Nat.min_le_right ..
  obtain ⟨counter, _⟩ := sound.stored.opened _ block works.opened
  rw [counter, works.index, works.start, ← UInt64.ofNat_sub ordered, ← UInt64.ofNat_add,
    newCount_eq sound.owned cut]

theorem newCount_le : ghost.newCount consumer ≤ 32 := finishedIn_le ..

theorem ofNat_newCount : (UInt64.ofNat (ghost.newCount consumer)).toNat = ghost.newCount consumer :=
  UInt64.toNat_ofNat_of_lt' (Nat.lt_of_le_of_lt newCount_le (by decide))

theorem finish_leaves
    (facts : ConsumerFacts consumer ghost producer (.deqSetEmpty walk start endIndex entry block))
    (same : after.index = producer.index) :
    Leaves (ghost.finish consumer block) after ((ghost.finish consumer block).claim consumer) walk
      endIndex ((ghost.claim consumer).start / 32) := by
  obtain ⟨works, whole⟩ := facts.stands
  obtain ⟨header, here, low, reach, place⟩ := works.follows.ring
  rw [← same] at here
  change Leaves _ _ ((ghost.settle consumer).claim consumer) _ _ _
  rw [settle_claim_self]
  refine ⟨⟨works.follows.first, works.follows.stop, header, here, low, reach, place⟩, works.index, rfl,
    ?_⟩
  change (ghost.claim consumer).index = (ghost.claim consumer).stop ∨ _
  rw [whole, Claim.cut]
  omega

end Moves

/-- The part of a claim up to its cut is in one block. -/
theorem within_cut {claim : Claim} (ordered : claim.start ≤ claim.index)
    (more : claim.index < claim.cut) :
    claim.start / 32 = claim.index / 32 ∧ claim.index < claim.stop := by
  rw [Claim.cut] at more
  omega

section Steps

variable [DecidableEq Consumer] (sound : Sound events ghost producer)
  (ordered : taken events ≤ (published events).length)

include sound ordered

theorem dequeues_takes (accounts : Accounts events producer pc)
    (facts : ConsumerFacts consumer ghost producer pc)
    (taken : Dequeues producer pc after next output) :
    ∃ later, Preserves Sound Facts (.consumer consumer) events (.ran (.consumer consumer) output)
      ghost later producer after next := by
  have stands := facts.stands
  cases taken with
  | loadTail | loadOvercommit | seemsEmpty | loadOptimistic | reserve | checkFails | checkShort
  | check | giveUp | giveBack =>
      exact ⟨ghost, keeps_still sound facts ⟨rfl, rfl, rfl, rfl⟩ (published_quiet rfl) rfl rfl stands
        rfl rfl⟩
  | claim amount =>
      obtain ⟨some, most⟩ := accounts.claim amount rfl
      have room := accounts.room
      exact takes_claim sound facts accounts.head some (by omega)
  | indexAborts first stop null => exact absurd null (find_index sound ordered stands)
  | loadIndex first stop current =>
      exact ⟨ghost, keeps_still sound facts ⟨rfl, rfl, rfl, rfl⟩ (published_quiet rfl) rfl rfl
        ⟨stands, find_loadIndex sound ordered stands current⟩ rfl rfl⟩
  | loadIndexTail first stop pointer =>
      exact ⟨ghost, keeps_still sound facts ⟨rfl, rfl, rfl, rfl⟩ (published_quiet rfl) rfl rfl
        (step_loadIndexTail sound facts) rfl rfl⟩
  | tailAborts first stop pointer tail wrong => exact (tail_aborts sound ordered facts wrong).elim
  | loadKey first stop here finds valid =>
      exact ⟨ghost, keeps_still sound facts ⟨rfl, rfl, rfl, rfl⟩ (published_quiet rfl) rfl rfl
        (step_loadKey sound ordered facts here finds) rfl rfl⟩
  | keyAborts walk wrong =>
      obtain ⟨whole, follows⟩ := stands
      obtain ⟨block, _, reads⟩ :=
        walk_reads sound ordered follows rfl whole.2.2.2.1 whole.2.2.2.2
      refine absurd ?_ (wrong _ _ reads)
      rw [whole.1, whole.2.2.1, blockBase_ofNat]
  | assertKey walk reads right =>
      exact ⟨ghost, keeps_still sound facts ⟨rfl, rfl, rfl, rfl⟩ (published_quiet rfl) rfl rfl stands
        rfl rfl⟩
  | valueAborts walk wrong =>
      obtain ⟨whole, follows⟩ := stands
      obtain ⟨block, _, reads⟩ :=
        walk_reads sound ordered follows rfl whole.2.2.2.1 whole.2.2.2.2
      cases wrong _ _ reads
  | assertValue walk reads value =>
      obtain ⟨whole, follows⟩ := stands
      obtain ⟨first, _, same, start, some⟩ := whole
      exact ⟨ghost, keeps_still sound facts ⟨rfl, rfl, rfl, rfl⟩ (published_quiet rfl) rfl rfl
        ⟨follows, first.trans (by rw [same]), start, some⟩ rfl rfl⟩
  | blockAborts walk index wrong =>
      obtain ⟨follows, _, start, some⟩ := stands
      obtain ⟨block, _, reads⟩ := walk_reads sound ordered follows rfl start some
      cases wrong _ _ reads
  | loadBlockEmpty walk index reads value nothing =>
      exact absurd nothing (not_loadBlockEmpty sound facts)
  | loadBlock walk index reads value more =>
      exact ⟨ghost, keeps_still sound facts ⟨rfl, rfl, rfl, rfl⟩ (published_quiet rfl) rfl rfl
        (step_loadBlock sound ordered facts reads value) rfl rfl⟩
  | moveAborts walk start index endIndex entry block vacant =>
      obtain ⟨works, more⟩ := stands
      have goes := sound.owned.start_le consumer
      obtain ⟨same, some⟩ := within_cut goes more
      obtain ⟨_, _, present⟩ := sound.present some ordered
        (held_of_opened (same ▸ works.opened : ghost.stage _ = .opened block))
      rw [works.index, blockOffset_toNat, present] at vacant
      cases vacant
  | moveLast walk start index entry block present =>
      obtain ⟨works, more⟩ := stands
      have goes := sound.owned.start_le consumer
      obtain ⟨same, some⟩ := within_cut goes more
      refine takes_move sound facts ordered some works.index (same ▸ works.opened) present
        (fun after same => ⟨works.shift same, ?_⟩) rfl rfl
      rw [shift_claim_self]
      exact (works.next_word sound.owned more).mp works.endIndex
  | move walk start index endIndex entry block present unequal =>
      obtain ⟨works, more⟩ := stands
      have goes := sound.owned.start_le consumer
      obtain ⟨same, some⟩ := within_cut goes more
      refine takes_move sound facts ordered some works.index (same ▸ works.opened) present
        (fun after same => ⟨works.shift same, ?_⟩) rfl rfl
      rw [shift_claim_self]
      have apart : (ghost.claim consumer).index + 1 ≠ (ghost.claim consumer).cut := by
        intro last
        rw [works.endIndex] at unequal
        exact unequal ((works.next_word sound.owned more).mpr last)
      exact Nat.lt_of_le_of_ne more apart
  | setEmptyAborts walk start endIndex entry block tooMany =>
      rw [setEmpty_count sound facts, UInt64.lt_iff_toNat_lt, ofNat_newCount] at tooMany
      exact absurd tooMany (Nat.not_lt.mpr newCount_le)
  | setEmptyLast walk start endIndex entry block all =>
      rw [setEmpty_count sound facts] at all ⊢
      have full : ghost.newCount consumer = 32 := by
        rw [← ofNat_newCount, all]
        rfl
      refine takes_count sound facts (fun after same => ?_) fun _ => rfl
      obtain ⟨works, _⟩ := stands
      obtain ⟨_, here, _, reach, _⟩ := works.follows.ring
      have known := sound.indexed.reach_le _ _ here
      have some := works.some
      refine ⟨_, finish_leaves facts same, ?_, works.slot, ?_⟩
      · rw [finish_stage_self, if_pos full]
      · change _ < ghost.slots.reach
        omega
  | setEmptyNoHeader walk start endIndex entry block missing =>
      obtain ⟨_, here, _⟩ := stands.1.follows.ring
      cases missing.symm.trans here
  | setEmpty walk start endIndex entry block here fits notAll =>
      rw [setEmpty_count sound facts] at notAll ⊢
      have few : ghost.newCount consumer ≠ 32 := by
        intro full
        rw [full] at notAll
        exact notAll rfl
      refine takes_count sound facts (fun after same => ?_) fun full => absurd full few
      have settled : Owned (ghost.settle consumer) (taken events) := sound.owned.settle
      have owned : Owned (ghost.finish consumer block) (taken events) :=
        settled.of_same rfl rfl
      have indexed : Indexed after.index (ghost.finish consumer block).slots
          (ghost.finish consumer block).used := by
        rw [same, finish_used stands.1.opened]
        exact sound.indexed
      rw [← same] at here
      refine next_stands owned indexed (finish_leaves facts same) here ⟨rfl, rfl, rfl⟩ ?_
      rw [settle_claim_self]
  | clearValue walk endIndex entry block => exact takes_clear sound facts
  | releaseAborts walk endIndex block missing =>
      obtain ⟨_, leaves, _⟩ := stands
      obtain ⟨_, here, _⟩ := leaves.follows.ring
      cases missing.symm.trans here
  | release walk endIndex block here => exact takes_release sound ordered facts here

end Steps

end DmLockFree.ConcurrentQueue.ImplicitProducer
