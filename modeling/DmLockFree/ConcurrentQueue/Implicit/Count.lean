import DmLockFree.ConcurrentQueue.Implicit.Take
import Mathlib.Order.Interval.Finset.Nat

/-! A consumer counts what it has moved, and gives back the block that it empties. -/

set_option autoImplicit false

namespace DmLockFree.ConcurrentQueue.ImplicitProducer

open Library Program

variable {Consumer T : Type} {ghost : Ghost Consumer T}
  {producer after : ImplicitProducer T} {events : List (Event Consumer T)} {consumer : Consumer}

section Finished

variable {owner other : Nat → Owner Consumer} {number start stop : Nat}

theorem finishedIn_le (owner : Nat → Owner Consumer) (number : Nat) :
    (finishedIn owner number).card ≤ 32 := by
  have most := Finset.card_filter_le (Finset.range 32)
    fun offset => (owner (32 * number + offset)).finished
  rwa [Finset.card_range] at most

/-- A block is emptied when all its elements are counted. -/
theorem finishedIn_full (full : (finishedIn owner number).card = 32) {index : Nat}
    (within : index / 32 = number) : owner index = .counted := by
  have whole : finishedIn owner number = Finset.range 32 :=
    Finset.eq_of_subset_of_card_le (Finset.filter_subset ..) (by rw [full, Finset.card_range])
  have member : index % 32 ∈ finishedIn owner number := by
    rw [whole, Finset.mem_range]
    omega
  have done := (Finset.mem_filter.mp member).2
  rw [show 32 * number + index % 32 = index by omega] at done
  exact finished_iff.mp done

theorem finishedIn_extend (low : 32 * number ≤ start) (high : stop ≤ 32 * number + 32)
    (more : ∀ index, (other index).finished = true ↔
      (owner index).finished = true ∨ start ≤ index ∧ index < stop)
    (fresh : ∀ index, start ≤ index → index < stop → (owner index).finished = false) :
    (finishedIn other number).card = (finishedIn owner number).card + (stop - start) := by
  have union : finishedIn other number = finishedIn owner number ∪
      Finset.Ico (start - 32 * number) (stop - 32 * number) := by
    ext offset
    rw [Finset.mem_union, finishedIn, finishedIn, Finset.mem_filter, Finset.mem_filter, more,
      Finset.mem_range, Finset.mem_Ico]
    constructor
    · rintro ⟨below, old | new⟩
      · exact .inl ⟨below, old⟩
      · exact .inr (by omega)
    · rintro (⟨below, old⟩ | new)
      · exact ⟨below, .inl old⟩
      · exact ⟨by omega, .inr (by omega)⟩
  have apart : Disjoint (finishedIn owner number)
      (Finset.Ico (start - 32 * number) (stop - 32 * number)) := by
    rw [Finset.disjoint_left]
    intro offset old new
    have bounds := Finset.mem_Ico.mp new
    have done := (Finset.mem_filter.mp old).2
    rw [fresh _ (by omega) (by omega)] at done
    cases done
  rw [union, Finset.card_union_of_disjoint apart, Nat.card_Ico]
  omega

end Finished

section Count

variable [DecidableEq Consumer]

/-- What the consumer has moved is counted. -/
def Ghost.settle (ghost : Ghost Consumer T) (consumer : Consumer) : Ghost Consumer T :=
  { ghost with
    owner := fun index =>
      if (ghost.claim consumer).start ≤ index ∧ index < (ghost.claim consumer).index then .counted
      else ghost.owner index
    claim := Function.update ghost.claim consumer
      { ghost.claim consumer with start := (ghost.claim consumer).index } }

theorem settle_claim_self : (ghost.settle consumer).claim consumer =
    { ghost.claim consumer with start := (ghost.claim consumer).index } :=
  Function.update_self ..

theorem settle_claim_of_ne {other : Consumer} (apart : other ≠ consumer) :
    (ghost.settle consumer).claim other = ghost.claim other :=
  Function.update_of_ne apart ..

theorem settle_within {index : Nat} (within : (ghost.claim consumer).start ≤ index ∧
    index < (ghost.claim consumer).index) : (ghost.settle consumer).owner index = .counted :=
  if_pos within

theorem settle_outside {index : Nat} (outside : ¬ ((ghost.claim consumer).start ≤ index ∧
    index < (ghost.claim consumer).index)) :
    (ghost.settle consumer).owner index = ghost.owner index :=
  if_neg outside

variable {taken : Nat} (owned : Owned ghost taken)

include owned

theorem settle_present (index : Nat) :
    ((ghost.settle consumer).owner index).present = (ghost.owner index).present := by
  by_cases within : (ghost.claim consumer).start ≤ index ∧ index < (ghost.claim consumer).index
  · rw [settle_within within, (owned.moved consumer index).mpr within]
    rfl
  · rw [settle_outside within]

omit owned in
theorem settle_finished (index : Nat) : ((ghost.settle consumer).owner index).finished = true ↔
    (ghost.owner index).finished = true ∨
      (ghost.claim consumer).start ≤ index ∧ index < (ghost.claim consumer).index := by
  by_cases within : (ghost.claim consumer).start ≤ index ∧ index < (ghost.claim consumer).index
  · rw [settle_within within]
    exact iff_of_true rfl (.inr within)
  · rw [settle_outside within]
    exact (or_iff_left within).symm

theorem Owned.settle : Owned (ghost.settle consumer) taken := by
  have start := owned.start_le consumer
  refine ⟨fun index => ?_, fun other index => ?_, fun other index => ?_, fun other => ?_,
    fun other => ?_, fun other => ?_, fun other => ?_, fun other => ?_⟩
  · by_cases within : (ghost.claim consumer).start ≤ index ∧ index < (ghost.claim consumer).index
    · rw [settle_within within, ← owned.waiting, (owned.moved consumer index).mpr within]
      exact iff_of_false (fun same => by cases same) (fun same => by cases same)
    · rw [settle_outside within]
      exact owned.waiting index
  · have same : ((ghost.settle consumer).claim other).index = (ghost.claim other).index ∧
        ((ghost.settle consumer).claim other).stop = (ghost.claim other).stop := by
      rcases eq_or_ne other consumer with rfl | apart
      · rw [settle_claim_self]
        exact ⟨rfl, rfl⟩
      · rw [settle_claim_of_ne apart]
        exact ⟨rfl, rfl⟩
    rw [same.1, same.2, ← owned.claimed]
    by_cases within : (ghost.claim consumer).start ≤ index ∧ index < (ghost.claim consumer).index
    · rw [settle_within within, (owned.moved consumer index).mpr within]
      exact iff_of_false (fun same => by cases same) (fun same => by cases same)
    · rw [settle_outside within]
  · rcases eq_or_ne other consumer with rfl | apart
    · rw [settle_claim_self]
      refine iff_of_false (fun moved => ?_) (by simp only []; omega)
      by_cases within : (ghost.claim other).start ≤ index ∧ index < (ghost.claim other).index
      · rw [settle_within within] at moved
        cases moved
      · rw [settle_outside within, owned.moved] at moved
        exact within moved
    · rw [settle_claim_of_ne apart, ← owned.moved]
      by_cases within : (ghost.claim consumer).start ≤ index ∧ index < (ghost.claim consumer).index
      · rw [settle_within within, (owned.moved consumer index).mpr within]
        exact iff_of_false (fun same => by cases same) fun same => apart (Owner.moved.inj same).symm
      · rw [settle_outside within]
  · rcases eq_or_ne other consumer with rfl | apart
    · rw [settle_claim_self]
      exact Nat.le_trans (owned.first_le other) start
    · rw [settle_claim_of_ne apart]
      exact owned.first_le other
  · rcases eq_or_ne other consumer with rfl | apart
    · rw [settle_claim_self]
    · rw [settle_claim_of_ne apart]
      exact owned.start_le other
  · rcases eq_or_ne other consumer with rfl | apart
    · rw [settle_claim_self]
      exact owned.index_le other
    · rw [settle_claim_of_ne apart]
      exact owned.index_le other
  · rcases eq_or_ne other consumer with rfl | apart
    · rw [settle_claim_self]
      exact owned.stop_le other
    · rw [settle_claim_of_ne apart]
      exact owned.stop_le other
  · rcases eq_or_ne other consumer with rfl | apart
    · rw [settle_claim_self]
      exact owned.close other
    · rw [settle_claim_of_ne apart]
      exact owned.close other

end Count

section Finish

variable [DecidableEq Consumer]

/-- The count of the block in which the claim begins, with what is moved. -/
def Ghost.newCount (ghost : Ghost Consumer T) (consumer : Consumer) : Nat :=
  (finishedIn (ghost.settle consumer).owner ((ghost.claim consumer).start / 32)).card

/-- What is moved is counted, and the block is to be cleared if that was the rest of it. -/
def Ghost.finish (ghost : Ghost Consumer T) (consumer : Consumer) (block : Nat) :
    Ghost Consumer T :=
  { ghost.settle consumer with
    stage := Function.update ghost.stage ((ghost.claim consumer).start / 32)
      (if ghost.newCount consumer = 32 then .clearing consumer block else .opened block) }

variable {block number : Nat}

theorem finish_stage_self :
    (ghost.finish consumer block).stage ((ghost.claim consumer).start / 32) =
      if ghost.newCount consumer = 32 then .clearing consumer block else .opened block :=
  Function.update_self ..

theorem finish_stage_of_ne (apart : number ≠ (ghost.claim consumer).start / 32) :
    (ghost.finish consumer block).stage number = ghost.stage number :=
  Function.update_of_ne apart ..

variable (opened : ghost.stage ((ghost.claim consumer).start / 32) = .opened block)

include opened

theorem finish_used : (ghost.finish consumer block).used = ghost.used := by
  funext number
  rcases eq_or_ne number ((ghost.claim consumer).start / 32) with rfl | apart
  · rw [Ghost.used, Ghost.used, finish_stage_self, opened]
    split <;> rfl
  · rw [Ghost.used, Ghost.used, finish_stage_of_ne apart]

theorem finish_held : (ghost.finish consumer block).held = ghost.held := by
  funext number
  rcases eq_or_ne number ((ghost.claim consumer).start / 32) with rfl | apart
  · rw [Ghost.held, Ghost.held, finish_stage_self, opened]
    split <;> rfl
  · rw [Ghost.held, Ghost.held, finish_stage_of_ne apart]

variable {taken : Nat} (owned : Owned ghost taken)
  (cut : (ghost.claim consumer).index ≤ 32 * ((ghost.claim consumer).start / 32) + 32)

include owned cut

omit opened in
theorem newCount_eq : ghost.newCount consumer =
    (finishedIn ghost.owner ((ghost.claim consumer).start / 32)).card +
      ((ghost.claim consumer).index - (ghost.claim consumer).start) := by
  refine finishedIn_extend (by omega) cut (fun index => settle_finished index)
    fun index above below => ?_
  rw [(owned.moved consumer index).mpr ⟨above, below⟩]
  rfl

theorem Stored.finish {values : List T} (stored : Stored ghost values producer) :
    Stored (ghost.finish consumer block) values
      (producer.setCompletelyDequeued block (.ofNat (ghost.newCount consumer))) := by
  have held := finish_held opened
  have mine := held_of_opened opened
  have elements : ∀ other, ((producer.setCompletelyDequeued block
      (.ofNat (ghost.newCount consumer))).blocks other).elements =
        (producer.blocks other).elements := by
    intro other
    rcases eq_or_ne other block with rfl | apart
    · simp only [setCompletelyDequeued, Function.update_self]
    · simp only [setCompletelyDequeued, Function.update_of_ne apart]
  have finished : ∀ index, ghost.owner index = .counted →
      (ghost.settle consumer).owner index = .counted := by
    intro index before
    rw [← finished_iff, settle_finished]
    exact .inl (finished_iff.mpr before)
  refine ⟨fun number => ?_, fun index emptied => ?_, fun number other open_ => ?_,
    fun index other here => ?_, fun other free offset below => ?_, ?_, ?_, ?_⟩
  · rcases eq_or_ne number ((ghost.claim consumer).start / 32) with rfl | apart
    · have before := stored.absent ((ghost.claim consumer).start / 32)
      rw [opened] at before
      rw [finish_stage_self]
      refine iff_of_false ?_ (fun beyond => absurd (before.mpr beyond) (fun same => by cases same))
      split <;> exact fun same => (by cases same)
    · rw [finish_stage_of_ne apart]
      exact stored.absent number
  · rcases eq_or_ne (index / 32) ((ghost.claim consumer).start / 32) with same | apart
    · rw [same, finish_stage_self] at emptied
      split at emptied
      case isTrue full => exact finishedIn_full full same
      case isFalse _ => cases emptied
    · rw [finish_stage_of_ne apart] at emptied
      exact finished index (stored.emptied index emptied)
  · rcases eq_or_ne number ((ghost.claim consumer).start / 32) with rfl | apart
    · rw [finish_stage_self] at open_
      split at open_
      case isTrue full => cases open_
      case isFalse few =>
          cases open_
          have most : ghost.newCount consumer ≤ 32 := finishedIn_le ..
          refine ⟨?_, Nat.lt_of_le_of_ne most few⟩
          simp only [setCompletelyDequeued, Function.update_self]
          rfl
    · rw [finish_stage_of_ne apart] at open_
      have different : other ≠ block := by
        intro same
        subst same
        exact apart (stored.distinct _ _ other (held_of_opened open_) mine)
      have same : finishedIn (ghost.settle consumer).owner number =
          finishedIn ghost.owner number := by
        apply finishedIn_congr
        intro offset below
        rw [settle_outside]
        omega
      have counter := stored.opened number other open_
      change _ = UInt64.ofNat (finishedIn (ghost.settle consumer).owner number).card ∧
        (finishedIn (ghost.settle consumer).owner number).card < 32
      rw [same]
      simpa only [setCompletelyDequeued, Function.update_of_ne different] using counter
  · rw [held] at here
    rw [elements]
    exact (stored.contents index other here).trans
      (content_congr (settle_present owned index)).symm
  · rw [held] at free
    rw [elements]
    exact stored.vacant other free offset below
  · rw [held]
    exact stored.distinct
  · rw [held]
    exact stored.fresh
  · rw [held]
    exact stored.requisitioned

end Finish

section Steps

variable [DecidableEq Consumer] {block number : Nat} {walk : Walk} {header : BlockIndexHeader}
  {endIndex : UInt64}

omit [DecidableEq Consumer] in
/-- The next block of the claim, or the end of the call. -/
theorem next_stands {claim : Claim} {taken : Nat} (owned : Owned ghost taken)
    (sound : Indexed producer.index ghost.slots ghost.used)
    (leaves : Leaves ghost producer (ghost.claim consumer) walk endIndex number)
    (here : producer.index.header walk.pointer = some header)
    (same : claim.first = (ghost.claim consumer).first ∧
      claim.index = (ghost.claim consumer).index ∧ claim.stop = (ghost.claim consumer).stop)
    (start : claim.start = claim.index) :
    (walk.next header endIndex : Pc T × _).1.Dequeuing consumer ghost producer claim := by
  obtain ⟨first, index, stop⟩ := same
  obtain ⟨follows, word, _, last⟩ := leaves
  have starts := owned.first_le consumer
  have goes := owned.start_le consumer
  have ends := owned.index_le consumer
  have equal : endIndex = walk.stop ↔
      (ghost.claim consumer).index = (ghost.claim consumer).stop := by
    rw [word, follows.stop]
    exact index_inj owned (by omega) ends (by omega) (Nat.le_refl _)
  rw [Walk.next]
  by_cases whole : endIndex = walk.stop
  · rw [if_pos whole]
    have done := equal.mp whole
    change claim.start = claim.stop
    omega
  · rw [if_neg whole]
    have more : (ghost.claim consumer).index ≠ (ghost.claim consumer).stop :=
      fun done => whole (equal.mpr done)
    have next := last.resolve_left more
    obtain ⟨_, again, low, reach, place⟩ := follows.ring
    cases here.symm.trans again
    have succ := (sound.covers _ _ here).place_succ place
    refine ⟨⟨?_, ?_, header, here, ?_, ?_, ?_⟩, ?_, start, ?_⟩
    · rw [first]
      exact follows.first
    · rw [stop]
      exact follows.stop
    · change (ghost.slots.window walk.pointer).low ≤ _
      omega
    · rw [stop]
      exact reach
    · rw [index, next, show (32 * number + 32) / 32 = number + 1 by omega]
      exact succ
    · rw [index]
      exact word
    · omega

/-- The part of a claim in one block is counted. -/
theorem takes_count {next : Pc T} {start : UInt64} {entry : Nat} {returned : Option (Return T)}
    (sound : Sound events ghost producer)
    (facts : ConsumerFacts consumer ghost producer (.deqSetEmpty walk start endIndex entry block))
    (stands : ∀ after, after.index = producer.index → next.Dequeuing consumer
      (ghost.finish consumer block) after ((ghost.settle consumer).claim consumer))
    (clears : ghost.newCount consumer = 32 → next.clears = some block) :
    ∃ later, Preserves Sound Facts (.consumer consumer) events
      (.ran (.consumer consumer) ⟨.setEmpty block (endIndex - start), returned⟩) ghost later producer
      (producer.setCompletelyDequeued block (.ofNat (ghost.newCount consumer))) next := by
  obtain ⟨works, whole⟩ := facts.stands
  have owned := sound.owned
  have opened := works.opened
  have held := finish_held opened
  have cut : (ghost.claim consumer).index ≤ 32 * ((ghost.claim consumer).start / 32) + 32 := by
    rw [whole, Claim.cut]
    exact Nat.min_le_right ..
  have none : ∀ number other, ghost.stage number ≠ .clearing consumer other :=
    fun number other stage => absurd (facts.clears number other stage) (fun same => by cases same)
  have quiet : Quiet ghost (ghost.finish consumer block) producer
      (producer.setCompletelyDequeued block (.ofNat (ghost.newCount consumer))) := by
    refine ⟨rfl, rfl, rfl, fun entry found here => ⟨found.value, here, id⟩, rfl, rfl, rfl, rfl, ?_,
      fun fresh new => ?_⟩
    · rw [finish_used opened]
      exact fun _ _ stands => stands
    · have apart : fresh ≠ block := by
        intro same
        subst same
        exact sound.stored.fresh _ _ new (held_of_opened opened)
      simp only [setCompletelyDequeued, Function.update_of_ne apart]
  refine ⟨ghost.finish consumer block, ⟨?_, ?_, ?_, ?_, ?_⟩, ⟨stands _ rfl, ?_, ?_⟩,
    fun other apart point mine => ?_⟩
  · rw [finish_used opened]
    exact sound.indexed
  · rw [values_quiet rfl rfl]
    exact sound.stored.finish opened owned cut
  · rw [taken_ran]
    exact owned.settle.of_same rfl rfl
  · rw [values_quiet rfl rfl, moves_quiet rfl, claims_quiet rfl]
    have kept : Trailed (ghost.settle consumer) (ghost.values events) (moves events)
        (claims events) := by
      refine sound.trailed.reassign rfl (settle_present owned) (fun other => ?_) fun other => ?_
      · rcases eq_or_ne other consumer with rfl | apart
        · rw [settle_claim_self]
        · rw [settle_claim_of_ne apart]
      · rcases eq_or_ne other consumer with rfl | apart
        · rw [settle_claim_self]
        · rw [settle_claim_of_ne apart]
    exact kept.reassign rfl (fun _ => rfl) (fun _ => rfl) fun _ => rfl
  · rw [published_quiet rfl]
    refine ⟨sound.ended.tail_le, sound.ended.mapped_le, fun less => ?_⟩
    rw [held]
    exact sound.ended.tailBlock less
  · intro number other stage
    rcases eq_or_ne number ((ghost.claim consumer).start / 32) with rfl | apart
    · rw [finish_stage_self] at stage
      split at stage
      case isTrue full =>
          cases stage
          exact clears full
      case isFalse _ => cases stage
    · rw [finish_stage_of_ne apart] at stage
      exact absurd stage (none number other)
  · intro number other stage
    have before : ghost.stage number = .releasing consumer other := by
      rcases eq_or_ne number ((ghost.claim consumer).start / 32) with rfl | apart
      · rw [finish_stage_self] at stage
        split at stage <;> cases stage
      · rwa [finish_stage_of_ne apart] at stage
    exact absurd (facts.releases number other before) (fun same => by cases same)
  · cases other with
    | producer => exact quiet.facts (published_quiet rfl) mine
    | consumer name =>
        have different : name ≠ consumer := fun same => apart (congrArg _ same)
        refine (quiet.steady (settle_claim_of_ne different) ?_ ?_ ?_).facts sound.indexed mine
        · intro index other above below stage
          rcases eq_or_ne (index / 32) ((ghost.claim consumer).start / 32) with same | apart
          · rw [same] at stage ⊢
            rw [finish_stage_self]
            split
            case isTrue full =>
                have counted := finishedIn_full full same
                have before := owned.uncounted above below
                rw [← finished_iff, settle_finished] at counted
                rcases counted with old | new
                · exact absurd (finished_iff.mp old) before
                · have moved := (owned.moved consumer index).mpr new
                  by_cases within : index < (ghost.claim name).index
                  · rw [(owned.moved name index).mpr ⟨above, within⟩] at moved
                    exact absurd (Owner.moved.inj moved) different
                  · rw [(owned.claimed name index).mpr ⟨Nat.le_of_not_lt within, below⟩] at moved
                    cases moved
            case isFalse few =>
                cases opened.symm.trans stage
                rfl
          · rw [finish_stage_of_ne apart]
            exact stage
        · intro number other
          rcases eq_or_ne number ((ghost.claim consumer).start / 32) with rfl | apart
          · rw [finish_stage_self, opened]
            split
            · exact iff_of_false (fun same => different (Stage.clearing.inj same).1.symm) (fun same => by cases same)
            · rfl
          · rw [finish_stage_of_ne apart]
        · intro number other
          rcases eq_or_ne number ((ghost.claim consumer).start / 32) with rfl | apart
          · rw [finish_stage_self, opened]
            split
            · exact iff_of_false (fun same => by cases same) (fun same => by cases same)
            · rfl
          · rw [finish_stage_of_ne apart]

end Steps

end DmLockFree.ConcurrentQueue.ImplicitProducer
