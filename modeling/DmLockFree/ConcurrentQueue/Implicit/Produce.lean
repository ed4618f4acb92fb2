import DmLockFree.ConcurrentQueue.Implicit.Dequeuing

/-! The steps of the producer of an `ImplicitProducer` on the block index. -/

set_option autoImplicit false

namespace DmLockFree.ConcurrentQueue.ImplicitProducer

open Library Program

variable {Consumer T : Type} {ghost later : Ghost Consumer T} {producer after : ImplicitProducer T}
  {events : List (Event Consumer T)} {pc next : Pc T} {output : Output T} {pointer entry : Nat}
  {newTail : UInt64} {found : BlockIndexEntry} {header : BlockIndexHeader}

section Index

variable {slots : Slots} {used : Nat → Option Nat}

/-- There is an entry behind the tail. -/
theorem exists_behind (indexed : Indexed producer.index slots used)
    (current : producer.index.blockIndex = some pointer) :
    ∃ newTail entry found, producer.Behind pointer newTail entry found := by
  obtain ⟨header, here, _⟩ := indexed.current pointer current
  have covers := indexed.covers pointer header here
  have place := covers.place_lt (slots.window pointer).top
  have behind := covers.behind_tail
  have present := List.getElem?_eq_getElem place
  have bound := covers.bounded _ (List.mem_of_getElem? present)
  refine ⟨_, _, _, current, header, here, rfl, ?_, List.getElem?_eq_getElem bound⟩
  rw [BlockIndexHeader.entry, behind]
  exact present

/-- A block does not stand in an entry that was never used. -/
theorem vacant_of_invalid (indexed : Indexed producer.index slots used)
    (here : producer.index.entries[entry]? = some found) (invalid : found.key = INVALID_BLOCK_BASE) :
    slots.Vacant used entry := by
  intro number block stands same
  obtain ⟨_, _, _, _, _, _, _, there⟩ := indexed.stands number block stands
  rw [same] at there
  cases here.symm.trans there
  exact baseOf_ne_invalid number invalid

theorem vacant_of_null (indexed : Indexed producer.index slots used)
    (here : producer.index.entries[entry]? = some found) (null : found.value = none) :
    slots.Vacant used entry := by
  intro number block stands same
  obtain ⟨_, _, _, _, _, _, _, there⟩ := indexed.stands number block stands
  rw [same] at there
  cases here.symm.trans there
  cases null

theorem at_of_behind (indexed : Indexed producer.index ghost.slots used)
    (level : Level ghost producer) (behind : producer.Behind pointer newTail entry found) :
    At ghost producer pointer newTail entry ∧ producer.index.entries[entry]? = some found := by
  obtain ⟨current, header, here, rfl, position, there⟩ := behind
  obtain ⟨top, _⟩ := level pointer current
  have covers := indexed.covers pointer header here
  have place := covers.behind_tail
  rw [top] at place
  exact ⟨⟨current, ⟨header, here, place, position⟩, top⟩, there⟩

theorem At.present (behind : At ghost producer pointer newTail entry)
    (indexed : Indexed producer.index ghost.slots used) :
    producer.index.entries[entry]? ≠ none := by
  obtain ⟨header, here, _, position⟩ := behind.ring
  have bound := (indexed.covers pointer header here).bounded entry (List.mem_of_getElem? position)
  rw [List.getElem?_eq_getElem bound]
  exact nofun

/-- If a block stands in the entry behind the tail, no block was taken back. -/
theorem At.reach (behind : At ghost producer pointer newTail entry) (level : Level ghost producer)
    (indexed : Indexed producer.index ghost.slots used) {block : Nat}
    (here : producer.index.entries[entry]? = some found) (stands : found.value = some block) :
    ghost.slots.reach = ghost.mapped := by
  obtain ⟨current, ⟨header, ring, place, position⟩, top⟩ := behind
  refine (level pointer current).2.resolve_right ?_
  rintro ⟨more, key, null⟩
  have covers := indexed.covers pointer header ring
  obtain ⟨_, reach, _⟩ := indexed.ring current ring
  have low := covers.low_le
  rw [top] at low
  have mine := covers.slots ghost.mapped low (by omega)
  rw [← place, position] at mine
  cases mine
  cases here.symm.trans null
  cases stands

end Index

/-- The steps that neither enqueue nor take are judged by what they make of the object. -/
theorem producer_keeps (sound : Sound events ghost producer) (kept : Sound events later after)
    (own : ProducerFacts events later after next)
    (steady : ∀ consumer, Steady consumer ghost later producer after)
    (quiet : output.access.published = none) (takes : output.access.taken = 0) :
    Preserves Sound Facts (.producer : Thread Consumer) events (.ran .producer output) ghost later
      producer after next := by
  refine ⟨?_, ?_, fun other apart point mine => ?_⟩
  · refine kept.still ⟨rfl, rfl, rfl, rfl⟩ (published_quiet quiet) ?_ (moves_producer ..)
      (claims_quiet takes)
    rw [taken_ran, takes, Nat.add_zero]
  · refine ⟨?_, own.fresh, own.ahead⟩
    rw [published_quiet quiet]
    exact own.stands
  · cases other with
    | producer => exact absurd rfl apart
    | consumer name => exact (steady name).facts sound.indexed mine

theorem Steady.of_same (consumer : Consumer) (claim : later.claim = ghost.claim)
    (slots : later.slots = ghost.slots) (stage : later.stage = ghost.stage)
    (headers : after.index.headers = producer.index.headers) :
    Steady consumer ghost later producer after := by
  refine ⟨by rw [claim], fun pointer header here => ?_, ?_, ?_, ?_, ?_, ?_, ?_, ?_, ?_, ?_⟩
  · rw [BlockIndex.header, headers]
    exact here
  · exact fun _ _ _ => by rw [slots]
  · exact fun _ _ _ => by rw [slots]
  · exact fun _ _ _ => by rw [slots]
  · exact fun _ _ _ _ _ below => by rwa [slots]
  · exact fun _ _ => by rw [slots]
  · rw [slots]
  · exact fun _ _ _ _ opened => by rwa [stage]
  · exact fun _ _ => by rw [stage]
  · exact fun _ _ => by rw [stage]

theorem give_window {slots : Slots} (other : Nat) :
    ((slots.give pointer entry).window other).offset = (slots.window other).offset ∧
      ((slots.give pointer entry).window other).low = (slots.window other).low ∧
      ((slots.give pointer entry).window other).top = (slots.window other).top := by
  rcases eq_or_ne other pointer with rfl | apart
  · simp only [Slots.give, Function.update_self, and_self]
  · simp only [Slots.give, Function.update_of_ne apart, and_self]

theorem move_window {slots : Slots} {number : Nat} (other : Nat) :
    ((slots.move pointer number).window other).offset = (slots.window other).offset ∧
      ((slots.move pointer number).window other).low = (slots.window other).low ∧
      ((slots.move pointer number).window other).reach = (slots.window other).reach := by
  rcases eq_or_ne other pointer with rfl | apart
  · simp only [Slots.move, Function.update_self, and_self]
  · simp only [Slots.move, Function.update_of_ne apart, and_self]

theorem give_reach {slots : Slots} : ((slots.give pointer entry).window pointer).reach =
    (slots.window pointer).top + 1 := by
  simp only [Slots.give, Function.update_self]

theorem give_slot_top {slots : Slots} :
    (slots.give pointer entry).slot (slots.window pointer).top = entry := by
  simp only [Slots.give, Function.update_self]

theorem move_top {slots : Slots} {number : Nat} :
    ((slots.move pointer number).window pointer).top = number := by
  simp only [Slots.move, Function.update_self]

/-- The tail of a ring may move as long as it stays behind the claims. -/
theorem Steady.of_move (consumer : Consumer) {number : Nat}
    (headers : after.index.headers = producer.index.headers)
    (behind : ∀ index, index < (ghost.claim consumer).stop →
      index / 32 < (ghost.slots.window pointer).top → index / 32 < number) :
    Steady consumer ghost { ghost with slots := ghost.slots.move pointer number } producer
      after := by
  refine ⟨rfl, fun other header here => ?_, fun other _ _ => (move_window other).1,
    fun other _ _ => (move_window other).2.1,
    fun other _ _ => Nat.le_of_eq (move_window other).2.2.symm, fun other _ _ index stop below => ?_,
    fun _ _ => rfl, Nat.le_refl _, fun _ _ _ _ => id, fun _ _ => Iff.rfl, fun _ _ => Iff.rfl⟩
  · rw [BlockIndex.header, headers]
    exact here
  · rcases eq_or_ne other pointer with rfl | apart
    · exact Nat.lt_of_lt_of_eq (behind index stop below) move_top.symm
    · exact Nat.lt_of_lt_of_eq below (congrArg Window.top (Function.update_of_ne apart ..)).symm

/-- Only what the block index covers has changed. -/
theorem Sound.reindex (sound : Sound events ghost producer) {slots : Slots} {index : BlockIndex}
    (indexed : Indexed index slots ghost.used) :
    Sound events { ghost with slots } (producer.setIndex index) := by
  have stored := sound.stored
  refine ⟨indexed, ⟨stored.absent, stored.emptied, stored.opened, stored.contents, stored.vacant,
    stored.distinct, stored.fresh, stored.requisitioned⟩, sound.owned.of_same rfl rfl, ?_, ?_⟩
  · exact sound.trailed.reassign rfl (fun _ => rfl) (fun _ => rfl) fun _ => rfl
  · exact ⟨sound.ended.tail_le, sound.ended.mapped_le, sound.ended.tailBlock⟩

section Index

variable (sound : Sound events ghost producer)

include sound

/-- The ring of the block index is replaced by a larger one. -/
theorem makes_newIndex {request : Enqueue T} {currentTailIndex : UInt64}
    (facts : ProducerFacts events ghost producer (.enqNewIndex request currentTailIndex))
    (fits : indexFits producer.index) :
    ∃ later, Preserves Sound Facts (.producer : Thread Consumer) events
      (.ran .producer ⟨.newBlockIndex, none⟩) ghost later producer
      (producer.setIndex producer.index.newBlockIndex) (.enqAssertKey request currentTailIndex) := by
  obtain ⟨tail, level, present, reach⟩ := facts.stands
  obtain ⟨pointer, current⟩ := Option.ne_none_iff_exists'.mp present
  obtain ⟨header, here, _⟩ := sound.indexed.current pointer current
  obtain ⟨top, _⟩ := level pointer current
  have grown := sound.indexed.grow current here fits (by rw [reach, top])
  have equal := newBlockIndex_eq current here
  obtain ⟨position, fresh⟩ := sound.indexed.grow_behind current here fits
  have last : producer.index.newBlockIndex.header producer.index.headers.length =
      some (producer.index.larger pointer header) := by
    rw [equal]
    exact List.getElem?_concat_length
  have pointed : producer.index.newBlockIndex.blockIndex =
      some producer.index.headers.length := by rw [equal]
  have old : ∀ other ring, producer.index.header other = some ring →
      other ≠ producer.index.headers.length := by
    intro other ring there same
    subst same
    exact absurd (List.getElem?_eq_some_iff.mp there).1 (Nat.lt_irrefl _)
  have window : ∀ other ring, producer.index.header other = some ring →
      (ghost.slots.grow pointer producer.index.headers.length header.capacity.toNat).window other =
        ghost.slots.window other :=
    fun other ring there => Function.update_of_ne (old other ring there) ..
  refine ⟨_, producer_keeps sound (sound.reindex grown) ⟨?_, facts.fresh, facts.ahead⟩
    (fun consumer => ⟨rfl, fun other ring there => ?_, fun other ring there => ?_,
      fun other ring there => ?_, fun other ring there => ?_, fun other ring there index _ below => ?_,
      fun _ _ => rfl, Nat.le_refl _, fun _ _ _ _ => id, fun _ _ => Iff.rfl, fun _ _ => Iff.rfl⟩)
    rfl rfl⟩
  · refine ⟨tail, fun other again => ?_, producer.index.headers.length, _, _, _,
      ⟨pointed, _, last, rfl, position, fresh⟩, rfl⟩
    change producer.index.newBlockIndex.blockIndex = some other at again
    rw [pointed, Option.some.injEq] at again
    subst again
    refine ⟨?_, .inl reach⟩
    change (Function.update ghost.slots.window _ _ _ : Window).top = _
    rw [Function.update_self]
    exact top
  · change producer.index.newBlockIndex.header other = some ring
    rw [equal]
    change (producer.index.headers ++ _)[other]? = some ring
    rw [List.getElem?_append_left (List.getElem?_eq_some_iff.mp there).1]
    exact there
  · exact congrArg Window.offset (window other ring there)
  · exact congrArg Window.low (window other ring there)
  · exact Nat.le_of_eq (congrArg Window.reach (window other ring there)).symm
  · exact Nat.lt_of_lt_of_eq below (congrArg Window.top (window other ring there)).symm

theorem makes_storeKey {request : Enqueue T} {currentTailIndex newTail : UInt64}
    (facts : ProducerFacts events ghost producer
      (.enqStoreKey request currentTailIndex pointer newTail entry))
    (word : currentTailIndex = .ofNat (published events).length) :
    ∃ later, Preserves Sound Facts (.producer : Thread Consumer) events
      (.ran .producer ⟨.storeKey, none⟩) ghost later producer
      (producer.setIndex (producer.index.setKey entry currentTailIndex))
      (.enqStoreIndexTail request currentTailIndex pointer newTail entry) := by
  obtain ⟨tail, behind, vacant, reach⟩ := facts.stands
  obtain ⟨current, ⟨header, here, place, position⟩, top⟩ := id behind
  have ring : header.index[(ghost.slots.window pointer).place header
      (ghost.slots.window pointer).top]? = some entry := by
    rw [top, ← place]
    exact position
  have key : currentTailIndex = baseOf (ghost.slots.window pointer).top := by
    rw [word, tail, top]
    rfl
  obtain ⟨covers, all, _⟩ := sound.indexed.ring current here
  have known : ghost.slots.reach ≤ (ghost.slots.window pointer).top + 1 := by omega
  have given := sound.indexed.give current here ring vacant known
  rw [← key] at given
  have slot : ∀ number, number < ghost.slots.reach →
      (ghost.slots.give pointer entry).slot number = ghost.slots.slot number :=
    fun _ below => sound.indexed.give_slot current here ring below
  have window := @give_window pointer entry ghost.slots
  refine ⟨_, producer_keeps sound (sound.reindex given) ⟨?_, facts.fresh, facts.ahead⟩
    (fun consumer => ⟨rfl, fun _ _ there => there, fun other _ _ => (window other).1,
      fun other _ _ => (window other).2.1, fun other ring there => ?_,
      fun other _ _ _ _ below => Nat.lt_of_lt_of_eq below (window other).2.2.symm, slot, ?_,
      fun _ _ _ _ => id, fun _ _ => Iff.rfl, fun _ _ => Iff.rfl⟩) rfl rfl⟩
  · refine ⟨tail, ⟨current, ⟨header, here, ?_, position⟩, (window pointer).2.2.trans top⟩, ⟨?_, ?_,
      fun number block stands => ?_, ?_, pointer, header, current, here, ?_,
      (window pointer).2.2.trans top⟩⟩
    · exact place.trans (by rw [Window.place, Window.place, (window pointer).1])
    · rw [← top]
      exact give_slot_top
    · exact congrArg (· + 1) top
    · obtain ⟨_, below, _⟩ := sound.indexed.standing current here stands
      have within := Nat.lt_of_lt_of_le below covers.top_le
      have same := slot number (by omega)
      change (ghost.slots.give pointer entry).slot number ≠ entry
      rw [same]
      exact vacant number block stands
    · obtain ⟨found, there⟩ := Option.ne_none_iff_exists'.mp (behind.present sound.indexed)
      refine ⟨found.value, ?_⟩
      change (producer.index.setKey entry currentTailIndex).entries[entry]? = _
      rw [getElem?_setKey, if_pos rfl, there, key, top]
      rfl
    · change ((ghost.slots.give pointer entry).window pointer).low ≤ _
      rw [(window pointer).2.1, ← top]
      exact covers.low_le
  · rcases eq_or_ne other pointer with rfl | apart
    · refine Nat.le_trans ?_ (Nat.le_of_eq give_reach.symm)
      omega
    · exact Nat.le_of_eq (congrArg Window.reach (Function.update_of_ne apart ..)).symm
  · exact known

theorem makes_storeIndexTail {request : Enqueue T} {currentTailIndex newTail : UInt64}
    (facts : ProducerFacts events ghost producer
      (.enqStoreIndexTail request currentTailIndex pointer newTail entry)) :
    ∃ later, Preserves Sound Facts (.producer : Thread Consumer) events
      (.ran .producer ⟨.storeIndexTail, none⟩) ghost later producer
      (producer.setIndex (producer.index.setTail pointer newTail))
      (.enqRequisition request currentTailIndex entry) := by
  obtain ⟨tail, ⟨current, ⟨header, here, place, position⟩, top⟩, given⟩ := facts.stands
  have raised := sound.indexed.raise current here (by rw [given.reach, top])
    (by rw [top, given.slot]; exact given.vacant) (by rw [top]; exact place)
  rw [top] at raised
  obtain ⟨_, _, again, _, low, _⟩ := given.ring
  cases current.symm.trans again
  refine ⟨_, producer_keeps sound (sound.reindex raised) ⟨⟨tail, given.slot, given.reach,
    given.vacant, given.key, pointer, header, current, here, ?_, ?_⟩, facts.fresh, facts.ahead⟩
    (fun consumer => Steady.of_move consumer rfl fun index _ below => ?_) rfl rfl⟩
  · exact Nat.le_trans (Nat.le_of_eq (move_window pointer).2.1) low
  · exact move_top
  · omega

/-- No claim reaches to the block that is taken back. -/
theorem makes_rewind {request : Enqueue T} {header : BlockIndexHeader}
    (facts : ProducerFacts events ghost producer (.enqRewind request entry))
    (ordered : taken events ≤ (published events).length)
    (current : producer.index.blockIndex = some pointer)
    (here : producer.index.header pointer = some header) :
    ∃ later, Preserves Sound Facts (.producer : Thread Consumer) events
      (.ran .producer ⟨.storeIndexTail, none⟩) ghost later producer
      (producer.setIndex (producer.index.setTail pointer
        (header.mask (producer.index.tails pointer - 1))))
      (.enqClearValue request entry) := by
  obtain ⟨tail, given⟩ := facts.stands
  obtain ⟨_, _, again, there, low, top⟩ := given.ring
  cases current.symm.trans again
  cases here.symm.trans there
  have absent : ghost.used ghost.mapped = none := by
    rw [Ghost.used, (sound.stored.absent _).mpr (Nat.le_refl _)]
    rfl
  have lowered := sound.indexed.lower current here top low (Nat.le_of_eq given.reach) absent
  refine ⟨_, producer_keeps sound (sound.reindex lowered) ⟨⟨tail, given.slot, given.reach,
    given.vacant, given.key, pointer, header, current, here, ?_, ?_⟩, facts.fresh, facts.ahead⟩
    (fun consumer => Steady.of_move consumer rfl fun index below _ => ?_) rfl rfl⟩
  · exact Nat.le_trans (Nat.le_of_eq (move_window pointer).2.1) low
  · exact move_top
  · have stop := sound.owned.stop_le consumer
    omega

theorem makes_clearValue {request : Enqueue T} {returned : Option (Return T)}
    (facts : ProducerFacts events ghost producer (.enqClearValue request entry)) :
    ∃ later, Preserves Sound Facts (.producer : Thread Consumer) events
      (.ran .producer ⟨.storeValue, returned⟩) ghost later producer
      (producer.setIndex (producer.index.setValue entry none)) .idle := by
  obtain ⟨tail, given⟩ := facts.stands
  obtain ⟨pointer, header, current, here, low, top⟩ := given.ring
  obtain ⟨value, key⟩ := given.key
  have cleared := sound.indexed.clear given.vacant
  refine ⟨ghost, producer_keeps sound (sound.reindex cleared) ⟨⟨by omega, fun other again => ?_⟩,
    facts.fresh, facts.ahead⟩ (fun consumer => Steady.of_same consumer rfl rfl rfl rfl) rfl rfl⟩
  cases current.symm.trans again
  refine ⟨top, .inr ⟨given.reach, baseOf ghost.mapped, ?_⟩⟩
  change (producer.index.setValue entry none).entries[_]? = _
  rw [given.slot, getElem?_setValue, if_pos rfl, key]
  rfl

end Index

end DmLockFree.ConcurrentQueue.ImplicitProducer
