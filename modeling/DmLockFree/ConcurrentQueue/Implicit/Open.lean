import DmLockFree.ConcurrentQueue.Implicit.Produce

/-! The producer opens a block, constructs elements in it and publishes them. -/

set_option autoImplicit false

namespace DmLockFree.ConcurrentQueue.ImplicitProducer

open Library Program

variable {Consumer T : Type} {ghost : Ghost Consumer T} {producer : ImplicitProducer T}
  {events : List (Event Consumer T)} {block entry : Nat} {request : Enqueue T}
  {currentTailIndex : UInt64}

section Open

variable (sound : Sound events ghost producer)

include sound

/-- The memory of the queue hands out a block that is not in use. -/
theorem makes_requisition
    (facts : ProducerFacts events ghost producer (.enqRequisition request currentTailIndex entry))
    (free : producer.requisitioned block = false) :
    ∃ later, Preserves Sound Facts (.producer : Thread Consumer) events
      (.ran .producer ⟨.requisition (some block), none⟩) ghost later producer
      (producer.setRequisitioned block true)
      (.enqResetEmpty request currentTailIndex entry block) := by
  have stored := sound.stored
  obtain ⟨tail, given⟩ := facts.stands
  have unused : ∀ number, ghost.held number ≠ some block := by
    intro number there
    rw [(stored.requisitioned block).mpr (.inl ⟨number, there⟩)] at free
    cases free
  have kept : Sound events { ghost with fresh := some block }
      (producer.setRequisitioned block true) := by
    refine ⟨sound.indexed, ⟨stored.absent, stored.emptied, stored.opened, stored.contents,
      stored.vacant, stored.distinct, fun number second same => ?_, fun second => ?_⟩,
      sound.owned.of_same rfl rfl, ?_, sound.ended.tail_le, sound.ended.mapped_le,
      sound.ended.tailBlock⟩
    · cases same
      exact unused number
    · rcases eq_or_ne second block with rfl | apart
      · simp [setRequisitioned]
      · have none : ghost.fresh = none := facts.fresh
        have before := stored.requisitioned second
        rw [none] at before
        simp only [setRequisitioned, Function.update_of_ne apart, before]
        exact or_congr_right (iff_of_false (fun same => by cases same) fun same => apart (Option.some.inj same).symm)
    · exact sound.trailed.reassign rfl (fun _ => rfl) (fun _ => rfl) fun _ => rfl
  exact ⟨_, producer_keeps sound kept ⟨⟨tail, given.slot, given.reach, given.vacant, given.key,
    given.ring⟩, rfl, facts.ahead⟩ (fun consumer => .of_same consumer rfl rfl rfl rfl) rfl rfl⟩

theorem makes_resetEmpty
    (facts : ProducerFacts events ghost producer
      (.enqResetEmpty request currentTailIndex entry block)) :
    ∃ later, Preserves Sound Facts (.producer : Thread Consumer) events
      (.ran .producer ⟨.resetEmpty block, none⟩) ghost later producer
      (producer.setCompletelyDequeued block 0)
      (.enqStoreValue request currentTailIndex entry block) := by
  have stored := sound.stored
  obtain ⟨tail, given⟩ := facts.stands
  have elements : ∀ second, ((producer.setCompletelyDequeued block 0).blocks second).elements =
      (producer.blocks second).elements := by
    intro second
    rcases eq_or_ne second block with rfl | apart
    · simp only [setCompletelyDequeued, Function.update_self]
    · simp only [setCompletelyDequeued, Function.update_of_ne apart]
  have kept : Sound events ghost (producer.setCompletelyDequeued block 0) := by
    refine ⟨sound.indexed, ⟨stored.absent, stored.emptied, fun number second opened => ?_,
      fun index second there => ?_, fun second unused => ?_, stored.distinct, stored.fresh,
      stored.requisitioned⟩, sound.owned, sound.trailed, sound.ended.tail_le,
      sound.ended.mapped_le, sound.ended.tailBlock⟩
    · have apart : second ≠ block := by
        intro same
        subst same
        exact stored.fresh number second facts.fresh (held_of_opened opened)
      simp only [setCompletelyDequeued, Function.update_of_ne apart]
      exact stored.opened number second opened
    · rw [elements]
      exact stored.contents index second there
    · rw [elements]
      exact stored.vacant second unused
  refine ⟨ghost, producer_keeps sound kept ⟨⟨tail, ⟨given.slot, given.reach, given.vacant,
    given.key, given.ring⟩, ?_⟩, facts.fresh, facts.ahead⟩
    (fun consumer => .of_same consumer rfl rfl rfl rfl) rfl rfl⟩
  simp only [setCompletelyDequeued, Function.update_self]

end Open

/-- The block is opened. -/
def Ghost.opening (ghost : Ghost Consumer T) (block : Nat) : Ghost Consumer T :=
  { ghost.setStage ghost.mapped (.opened block) with
    mapped := ghost.mapped + 1
    fresh := none }

section Opening

theorem opening_used : (ghost.opening block).used =
    Function.update ghost.used ghost.mapped (some block) := setStage_used

theorem opening_held : (ghost.opening block).held =
    Function.update ghost.held ghost.mapped (some block) := setStage_held

/-- Nothing behind the tail is counted. -/
theorem finishedIn_behind {taken number : Nat} (owned : Owned ghost taken)
    (behind : taken ≤ 32 * number) : finishedIn ghost.owner number = ∅ := by
  apply Finset.filter_eq_empty_iff.mpr
  intro offset member
  rw [(owned.waiting (32 * number + offset)).mpr (by omega)]
  exact fun same => (by cases same)

/-- A new block is empty, as is what lies behind the tail. -/
theorem Stored.opening {values : List T} {taken : Nat} (stored : Stored ghost values producer)
    (owned : Owned ghost taken) (length : values.length = 32 * ghost.mapped)
    (ordered : taken ≤ 32 * ghost.mapped) (fresh : ghost.fresh = some block)
    (zero : (producer.blocks block).elementsCompletelyDequeued = 0) :
    Stored (ghost.opening block) values producer := by
  have absent : ghost.stage ghost.mapped = .absent := (stored.absent _).mpr (Nat.le_refl _)
  have unused : ∀ number, ghost.held number ≠ some block := fun number =>
    stored.fresh number block fresh
  have others : ∀ number, number ≠ ghost.mapped →
      (ghost.opening block).stage number = ghost.stage number :=
    fun number apart => Function.update_of_ne apart ..
  have self : (ghost.opening block).stage ghost.mapped = .opened block :=
    Function.update_self ..
  have held : ∀ number second, (ghost.opening block).held number = some second ↔
      number = ghost.mapped ∧ second = block ∨ ghost.held number = some second := by
    intro number second
    rw [opening_held]
    rcases eq_or_ne number ghost.mapped with rfl | apart
    · have nothing : ghost.held ghost.mapped = none := by
        rw [Ghost.held, absent]
        rfl
      rw [Function.update_self, nothing]
      simp [eq_comm]
    · rw [Function.update_of_ne apart]
      simp [apart]
  refine ⟨fun number => ?_, fun index emptied => ?_, fun number second opened => ?_,
    fun index second there => ?_, fun second free => ?_, fun number other second there too => ?_,
    (fun _ _ new => by cases new), fun second => ?_⟩
  · rcases eq_or_ne number ghost.mapped with rfl | apart
    · rw [self]
      exact iff_of_false (fun same => by cases same) (Nat.not_succ_le_self _)
    · rw [others number apart, stored.absent]
      change _ ↔ ghost.mapped + 1 ≤ number
      omega
  · rcases eq_or_ne (index / 32) ghost.mapped with same | apart
    · rw [same, self] at emptied
      cases emptied
    · rw [others _ apart] at emptied
      exact stored.emptied index emptied
  · rcases eq_or_ne number ghost.mapped with rfl | apart
    · rw [self] at opened
      cases opened
      change _ = UInt64.ofNat (finishedIn ghost.owner ghost.mapped).card ∧
        (finishedIn ghost.owner ghost.mapped).card < 32
      rw [finishedIn_behind owned ordered, zero]
      exact ⟨rfl, by decide⟩
    · rw [others number apart] at opened
      exact stored.opened number second opened
  · rcases (held _ second).mp there with ⟨same, rfl⟩ | there
    · rw [stored.vacant second unused _ (Nat.mod_lt _ (by decide)), content,
        List.getElem?_eq_none (by omega), ite_self]
    · exact stored.contents index second there
  · exact stored.vacant second fun number there => free number ((held _ _).mpr (.inr there))
  · rcases (held _ _).mp there with ⟨rfl, rfl⟩ | before
    · rcases (held _ _).mp too with ⟨rfl, _⟩ | also
      · rfl
      · exact absurd also (unused other)
    · rcases (held _ _).mp too with ⟨_, rfl⟩ | also
      · exact absurd before (unused number)
      · exact stored.distinct number other second before also
  · rw [stored.requisitioned, fresh]
    change _ ↔ _ ∨ none = some second
    simp only [held, exists_or, Option.some.injEq, reduceCtorEq, or_false]
    constructor
    · rintro (there | rfl)
      · exact .inr there
      · exact .inl ⟨ghost.mapped, rfl, rfl⟩
    · rintro (⟨_, _, rfl⟩ | there)
      · exact .inr rfl
      · exact .inl there

/-- The new block stands in the block index. -/
theorem makes_storeValue (sound : Sound events ghost producer)
    (facts : ProducerFacts events ghost producer
      (.enqStoreValue request currentTailIndex entry block))
    (ordered : taken events ≤ (published events).length) :
    ∃ later, Preserves Sound Facts (.producer : Thread Consumer) events
      (.ran .producer ⟨.storeValue, none⟩) ghost later producer
      { producer.setIndex (producer.index.setValue entry (some block)) with
        tailBlock := some block }
      (.enqConstruct request currentTailIndex) := by
  obtain ⟨tail, given, zero⟩ := facts.stands
  obtain ⟨pointer, header, current, here, low, top⟩ := given.ring
  obtain ⟨value, key⟩ := given.key
  have vacant := given.vacant
  rw [← given.slot] at vacant key
  have filled := sound.indexed.fill current here top low given.reach vacant key block
  rw [given.slot, ← opening_used] at filled
  have nothing : ghost.ahead = none := facts.ahead
  have length : (ghost.values events).length = 32 * ghost.mapped := by
    rw [Ghost.values, nothing, Option.toList_none, List.append_nil, tail]
  have stored := sound.stored.opening sound.owned length (by omega) facts.fresh zero
  have mapped : (published events).length / 32 = ghost.mapped := by omega
  have kept : Sound events (ghost.opening block)
      { producer.setIndex (producer.index.setValue entry (some block)) with
        tailBlock := some block } := by
    refine ⟨filled, ⟨stored.absent, stored.emptied, stored.opened, stored.contents, stored.vacant,
      stored.distinct, stored.fresh, stored.requisitioned⟩, sound.owned.of_same rfl rfl, ?_, ?_, ?_,
      fun _ => ⟨block, ?_, rfl⟩⟩
    · exact sound.trailed.reassign rfl (fun _ => rfl) (fun _ => rfl) fun _ => rfl
    · change _ ≤ 32 * (ghost.mapped + 1)
      omega
    · exact Nat.le_of_eq (congrArg (· + 1) mapped.symm)
    · rw [mapped, opening_held, Function.update_self]
  have others : ∀ number, number ≠ ghost.mapped →
      (ghost.opening block).stage number = ghost.stage number :=
    fun number apart => Function.update_of_ne apart ..
  have self : (ghost.opening block).stage ghost.mapped = .opened block :=
    Function.update_self ..
  have absent := (sound.stored.absent _).mpr (Nat.le_refl ghost.mapped)
  refine ⟨ghost.opening block, producer_keeps sound kept ⟨⟨?_, fun other again => ?_⟩, rfl, nothing⟩
    (fun consumer => ⟨rfl, fun _ _ there => there, fun _ _ _ => rfl, fun _ _ _ => rfl,
      fun _ _ _ => Nat.le_refl _, fun _ _ _ _ _ => id, fun _ _ => rfl, Nat.le_refl _,
      fun index second above below opened => ?_, fun number second => ?_, fun number second => ?_⟩)
    rfl rfl⟩
  · exact congrArg (· + 1) mapped.symm
  · cases current.symm.trans again
    exact ⟨top, .inl given.reach⟩
  · have stop := sound.owned.stop_le consumer
    rw [others _ (by omega)]
    exact opened
  · rcases eq_or_ne number ghost.mapped with rfl | apart
    · rw [self, absent]
      exact iff_of_false (fun same => by cases same) (fun same => by cases same)
    · rw [others _ apart]
  · rcases eq_or_ne number ghost.mapped with rfl | apart
    · rw [self, absent]
      exact iff_of_false (fun same => by cases same) (fun same => by cases same)
    · rw [others _ apart]

end Opening

end DmLockFree.ConcurrentQueue.ImplicitProducer
