import DmLockFree.ConcurrentQueue.Implicit.Facts

/-! The steps of a consumer on the blocks of an `ImplicitProducer`. -/

set_option autoImplicit false

namespace DmLockFree.ConcurrentQueue.ImplicitProducer

open Library Program

variable {Consumer T : Type} {ghost later : Ghost Consumer T} {producer after : ImplicitProducer T}
  {events extended : List (Event Consumer T)} {consumer other : Consumer} {pc next : Pc T}
  {output : Output T}

/-- What a step of a consumer leaves alone of the things that the producer relies on. -/
structure Quiet (ghost later : Ghost Consumer T) (producer after : ImplicitProducer T) : Prop where
  current : after.index.blockIndex = producer.index.blockIndex
  headers : after.index.headers = producer.index.headers
  tails : after.index.tails = producer.index.tails
  entries : ∀ (entry : Nat) (found : BlockIndexEntry),
    producer.index.entries[entry]? = some found → ∃ value,
      after.index.entries[entry]? = some ⟨found.key, value⟩ ∧ (found.value = none → value = none)
  slots : later.slots = ghost.slots
  mapped : later.mapped = ghost.mapped
  fresh : later.fresh = ghost.fresh
  ahead : later.ahead = ghost.ahead
  used : ∀ number block, later.used number = some block → ghost.used number = some block
  counter : ∀ block, ghost.fresh = some block →
    (after.blocks block).elementsCompletelyDequeued =
      (producer.blocks block).elementsCompletelyDequeued

namespace Quiet

theorem of_same (same : after.index = producer.index) (blocks : after.blocks = producer.blocks) :
    Quiet ghost ghost producer after := by
  refine ⟨by rw [same], by rw [same], by rw [same], fun entry found here => ?_, rfl, rfl, rfl, rfl,
    fun _ _ stands => stands, fun block _ => by rw [blocks]⟩
  rw [same]
  exact ⟨found.value, here, id⟩

section Producer

variable (quiet : Quiet ghost later producer after)

include quiet

theorem header (pointer : Nat) : after.index.header pointer = producer.index.header pointer := by
  rw [BlockIndex.header, BlockIndex.header, quiet.headers]

theorem level (level : Level ghost producer) : Level later after := by
  intro pointer current
  rw [quiet.current] at current
  obtain ⟨top, reach⟩ := level pointer current
  rw [quiet.slots, quiet.mapped]
  refine ⟨top, reach.imp_right fun ⟨more, key, null⟩ => ⟨more, key, ?_⟩⟩
  obtain ⟨value, found, none⟩ := quiet.entries _ _ null
  rw [found, none rfl]

theorem at_ {pointer entry : Nat} {newTail : UInt64} (behind : At ghost producer pointer newTail entry) :
    At later after pointer newTail entry := by
  obtain ⟨current, ⟨header, here, place, position⟩, top⟩ := behind
  refine ⟨quiet.current.trans current, ⟨header, (quiet.header pointer).trans here, ?_, position⟩, ?_⟩
  · rw [quiet.slots, quiet.mapped]
    exact place
  · rw [quiet.slots, quiet.mapped]
    exact top

theorem vacant {entry : Nat} (vacant : ghost.slots.Vacant ghost.used entry) :
    later.slots.Vacant later.used entry := by
  intro number block stands
  rw [quiet.slots]
  exact vacant number block (quiet.used number block stands)

theorem given {entry top : Nat} (given : Given ghost producer entry top) :
    Given later after entry top := by
  obtain ⟨slot, reach, vacant, ⟨value, key⟩, pointer, header, current, here, low, last⟩ := given
  obtain ⟨now, found, _⟩ := quiet.entries _ _ key
  refine ⟨?_, ?_, quiet.vacant vacant, ⟨now, ?_⟩, pointer, header, quiet.current.trans current,
    (quiet.header pointer).trans here, ?_, ?_⟩
  · rw [quiet.slots, quiet.mapped]
    exact slot
  · rw [quiet.slots, quiet.mapped]
    exact reach
  · rw [quiet.mapped]
    exact found
  · rw [quiet.slots, quiet.mapped]
    exact low
  · rw [quiet.slots]
    exact last

theorem behind {pointer entry : Nat} {newTail : UInt64} {found : BlockIndexEntry}
    (behind : producer.Behind pointer newTail entry found) :
    ∃ value, after.Behind pointer newTail entry ⟨found.key, value⟩ := by
  obtain ⟨current, header, here, tail, position, there⟩ := behind
  obtain ⟨value, now, _⟩ := quiet.entries _ _ there
  refine ⟨value, quiet.current.trans current, header, (quiet.header pointer).trans here, ?_, position,
    now⟩
  rw [quiet.tails]
  exact tail

/-- The producer keeps its facts. -/
theorem facts (same : published extended = published events)
    (facts : ProducerFacts events ghost producer pc) : ProducerFacts extended later after pc := by
  refine ⟨?_, quiet.fresh.trans facts.fresh, quiet.ahead.trans facts.ahead⟩
  have stands := facts.stands
  rw [same]
  cases pc with
  | idle | enqLoadTail request =>
      exact ⟨quiet.mapped.trans stands.1, quiet.level stands.2⟩
  | enqLoadHead request currentTailIndex | enqLoadKey request currentTailIndex =>
      exact ⟨stands.1.trans (by rw [quiet.mapped]), quiet.level stands.2⟩
  | enqLoadValue request currentTailIndex pointer newTail entry =>
      obtain ⟨tail, level, behind⟩ := stands
      exact ⟨tail.trans (by rw [quiet.mapped]), quiet.level level, quiet.at_ behind⟩
  | enqNewIndex request currentTailIndex =>
      obtain ⟨tail, level, present, reach⟩ := stands
      refine ⟨tail.trans (by rw [quiet.mapped]), quiet.level level, ?_, ?_⟩
      · rw [quiet.current]
        exact present
      · rw [quiet.slots, quiet.mapped]
        exact reach
  | enqAssertKey request currentTailIndex =>
      obtain ⟨tail, level, pointer, newTail, entry, found, behind, invalid⟩ := stands
      obtain ⟨value, still⟩ := quiet.behind behind
      exact ⟨tail.trans (by rw [quiet.mapped]), quiet.level level, pointer, newTail, entry, _, still,
        invalid⟩
  | enqStoreKey request currentTailIndex pointer newTail entry =>
      obtain ⟨tail, behind, vacant, reach⟩ := stands
      refine ⟨tail.trans (by rw [quiet.mapped]), quiet.at_ behind, quiet.vacant vacant, ?_⟩
      rw [quiet.slots, quiet.mapped]
      exact reach
  | enqStoreIndexTail request currentTailIndex pointer newTail entry =>
      obtain ⟨tail, behind, given⟩ := stands
      have given := quiet.given given
      rw [← quiet.mapped] at given
      exact ⟨tail.trans (by rw [quiet.mapped]), quiet.at_ behind, given⟩
  | enqRequisition request currentTailIndex entry | enqRewind request entry
  | enqResetEmpty request currentTailIndex entry block =>
      obtain ⟨tail, given⟩ := stands
      have given := quiet.given given
      rw [← quiet.mapped] at given
      exact ⟨tail.trans (by rw [quiet.mapped]), given⟩
  | enqStoreValue request currentTailIndex entry block =>
      obtain ⟨tail, given, zero⟩ := stands
      have given := quiet.given given
      rw [← quiet.mapped] at given
      exact ⟨tail.trans (by rw [quiet.mapped]), given, (quiet.counter block facts.fresh).trans zero⟩
  | enqClearValue request entry =>
      obtain ⟨tail, given⟩ := stands
      have given := quiet.given given
      rw [← quiet.mapped] at given
      exact ⟨tail.trans (by rw [quiet.mapped]), given⟩
  | enqConstruct request currentTailIndex | enqStoreTail request currentTailIndex =>
      exact ⟨quiet.mapped.trans stands.1, quiet.level stands.2⟩
  | _ => exact stands

/-- Another consumer keeps its facts, too, if its claim and its blocks are not touched. -/
theorem steady (claim : later.claim other = ghost.claim other)
    (opened : ∀ index block, (ghost.claim other).start ≤ index →
      index < (ghost.claim other).stop → ghost.stage (index / 32) = .opened block →
      later.stage (index / 32) = .opened block)
    (clearing : ∀ number block, later.stage number = .clearing other block ↔
      ghost.stage number = .clearing other block)
    (releasing : ∀ number block, later.stage number = .releasing other block ↔
      ghost.stage number = .releasing other block) :
    Steady other ghost later producer after := by
  refine ⟨claim, fun pointer header here => (quiet.header pointer).trans here, ?_, ?_, ?_, ?_, ?_,
    ?_, opened, clearing, releasing⟩
  · exact fun _ _ _ => by rw [quiet.slots]
  · exact fun _ _ _ => by rw [quiet.slots]
  · exact fun _ _ _ => by rw [quiet.slots]
  · exact fun _ _ _ _ _ below => by rwa [quiet.slots]
  · exact fun _ _ => by rw [quiet.slots]
  · rw [quiet.slots]

end Producer

end Quiet

/-- The claim of a consumer is not counted. -/
theorem Owned.uncounted {taken index : Nat} (owned : Owned ghost taken)
    (above : (ghost.claim consumer).start ≤ index) (below : index < (ghost.claim consumer).stop) :
    ghost.owner index ≠ .counted := by
  by_cases moved : index < (ghost.claim consumer).index
  · rw [(owned.moved consumer index).mpr ⟨above, moved⟩]
    exact nofun
  · rw [(owned.claimed consumer index).mpr ⟨Nat.le_of_not_lt moved, below⟩]
    exact nofun

section Consumer

variable (sound : Sound events ghost producer) (facts : ConsumerFacts consumer ghost producer pc)
  (ordered : taken events ≤ (published events).length)

include sound ordered in
/-- The blocks of a claim are open as long as the claim has parts in them. -/
theorem Sound.claim_opened {index : Nat} (above : (ghost.claim consumer).start ≤ index)
    (below : index < (ghost.claim consumer).stop) :
    ∃ block, ghost.stage (index / 32) = .opened block := by
  have stop := sound.owned.stop_le consumer
  exact sound.opened (by omega) (sound.owned.uncounted above below)

include sound facts in
/-- A step of a consumer that changes no more than counters. -/
theorem keeps_still (same : SameStore producer after)
    (publishes : published (events ++ [.ran (.consumer consumer) output]) = published events)
    (takes : output.access.taken = 0) (moved : output.access.moved = none)
    (stands : next.Dequeuing consumer ghost after (ghost.claim consumer))
    (clears : next.clears = pc.clears) (releases : next.releases = pc.releases) :
    Preserves Sound Facts (.consumer consumer) events (.ran (.consumer consumer) output) ghost
      ghost producer after next := by
  have quiet : Quiet ghost ghost producer after := .of_same same.index same.blocks
  refine ⟨sound.still same publishes ?_ (moves_quiet moved) (claims_quiet takes), ⟨stands, ?_, ?_⟩, fun other apart point mine => ?_⟩
  · rw [taken_ran, takes, Nat.add_zero]
  · rw [clears]
    exact facts.clears
  · rw [releases]
    exact facts.releases
  · cases other with
    | producer => exact quiet.facts publishes mine
    | consumer name =>
        refine (quiet.steady rfl ?_ ?_ ?_).facts sound.indexed mine
        · exact fun _ _ _ _ opened => opened
        · exact fun _ _ => Iff.rfl
        · exact fun _ _ => Iff.rfl

end Consumer

end DmLockFree.ConcurrentQueue.ImplicitProducer
