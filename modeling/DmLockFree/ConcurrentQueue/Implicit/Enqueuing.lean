import DmLockFree.ConcurrentQueue.Implicit.Open

/-! Every step of the producer keeps the blocks of an `ImplicitProducer` sound. -/

set_option autoImplicit false

namespace DmLockFree.ConcurrentQueue.ImplicitProducer

open Library Program

variable {Consumer T : Type} {ghost : Ghost Consumer T} {producer after : ImplicitProducer T}
  {events : List (Event Consumer T)} {request : Enqueue T} {currentTailIndex : UInt64}
  {block : Nat} {pc next : Pc T} {output : Output T} {maxSubqueueSize : UInt64}

theorem content_snoc {values : List T} {owner : Nat → Owner Consumer} {index : Nat}
    (apart : index ≠ values.length) (value : T) :
    content (values ++ [value]) owner index = content values owner index := by
  have same : (values ++ [value])[index]? = values[index]? := by
    rcases Nat.lt_or_gt_of_ne apart with below | beyond
    · exact List.getElem?_append_left below
    · rw [List.getElem?_eq_none (Nat.le_of_lt beyond), List.getElem?_eq_none]
      rw [List.length_append, List.length_singleton]
      exact beyond
  rw [content, content, same]

/-- An element behind the tail is no element of the queue yet. -/
theorem Stored.construct {values : List T} {taken : Nat} (stored : Stored ghost values producer)
    (owned : Owned ghost taken) (ordered : taken ≤ values.length)
    (held : ghost.held (values.length / 32) = some block) (value : T) :
    Stored { ghost with ahead := some value } (values ++ [value])
      (producer.setElement block (values.length % 32) (some value)) := by
  have counter : ∀ second, ((producer.setElement block (values.length % 32)
      (some value)).blocks second).elementsCompletelyDequeued =
        (producer.blocks second).elementsCompletelyDequeued := by
    intro second
    rcases eq_or_ne second block with rfl | apart
    · simp only [setElement, Function.update_self]
    · simp only [setElement, Function.update_of_ne apart]
  refine ⟨stored.absent, stored.emptied, fun number second opened => ?_, fun index second there => ?_,
    fun second free offset below => ?_, stored.distinct, stored.fresh, stored.requisitioned⟩
  · rw [counter]
    exact stored.opened number second opened
  · rcases eq_or_ne index values.length with rfl | apart
    · cases held.symm.trans there
      simp only [setElement, Function.update_self, content, (owned.waiting _).mpr ordered]
      exact (List.getElem?_concat_length ..).symm
    · refine Eq.trans ?_ (content_snoc apart value).symm
      rw [← stored.contents index second there]
      rcases eq_or_ne second block with rfl | other
      · have number := stored.distinct _ _ second there held
        have offset : index % 32 ≠ values.length % 32 := by omega
        simp only [setElement, Function.update_self, Function.update_of_ne offset]
      · simp only [setElement, Function.update_of_ne other]
  · have other : second ≠ block := fun same => free _ (same ▸ held)
    simp only [setElement, Function.update_of_ne other]
    exact stored.vacant second free offset below

section Publish

variable (sound : Sound events ghost producer) (ordered : taken events ≤ (published events).length)
  (word : currentTailIndex = .ofNat (published events).length)

include sound

/-- The producer knows the block of the tail. -/
theorem tail_held (mapped : ghost.mapped = (published events).length / 32 + 1) :
    ∃ block, ghost.held ((published events).length / 32) = some block ∧
      producer.tailBlock = some block :=
  sound.ended.tailBlock (by omega)

include ordered in
theorem tail_vacant (mapped : ghost.mapped = (published events).length / 32 + 1)
    (nothing : ghost.ahead = none) (tailBlock : producer.tailBlock = some block) :
    (producer.blocks block).elements ((published events).length % 32) = none := by
  obtain ⟨_, held, same⟩ := tail_held sound mapped
  cases tailBlock.symm.trans same
  rw [sound.stored.contents _ block held, content, (sound.owned.waiting _).mpr ordered,
    Ghost.values, nothing, Option.toList_none, List.append_nil]
  exact List.getElem?_eq_none (Nat.le_refl _)

include ordered word in
theorem makes_construct
    (facts : ProducerFacts events ghost producer (.enqConstruct request currentTailIndex))
    (tailBlock : producer.tailBlock = some block) :
    ∃ later, Preserves Sound Facts (.producer : Thread Consumer) events
      (.ran .producer ⟨.construct currentTailIndex request.value, none⟩) ghost later producer
      (producer.setElement block (blockOffset currentTailIndex).toNat (some request.value))
      (.enqStoreTail request currentTailIndex) := by
  obtain ⟨mapped, level⟩ := facts.stands
  have nothing : ghost.ahead = none := facts.ahead
  have values : ghost.values events = published events := by
    rw [Ghost.values, nothing, Option.toList_none, List.append_nil]
  obtain ⟨_, held, same⟩ := tail_held sound mapped
  cases tailBlock.symm.trans same
  have trailed := sound.trailed
  have stored := sound.stored
  rw [values] at trailed stored
  rw [word, blockOffset_toNat]
  have kept : Sound events { ghost with ahead := some request.value }
      (producer.setElement block ((published events).length % 32) (some request.value)) := by
    refine ⟨sound.indexed, stored.construct sound.owned ordered held request.value,
      sound.owned.of_same rfl rfl, ⟨trailed.once, trailed.gone, trailed.before, trailed.ordered,
      ?_, trailed.shares⟩, sound.ended.tail_le, sound.ended.mapped_le, sound.ended.tailBlock⟩
    rw [trailed.moves]
    refine List.map_congr_left fun step member => ?_
    have before := trailed.before step member
    have index := sound.owned.index_le step.1
    have stop := sound.owned.stop_le step.1
    change (step.1, _) = (step.1, (published events ++ [request.value])[step.2]?)
    rw [List.getElem?_append_left (by omega)]
  exact ⟨_, producer_keeps sound kept ⟨⟨mapped, level⟩, facts.fresh, rfl⟩
    (fun consumer => .of_same consumer rfl rfl rfl rfl) rfl rfl⟩

/-- The element behind the tail becomes one of the queue. -/
theorem makes_storeTail
    (facts : ProducerFacts events ghost producer (.enqStoreTail request currentTailIndex)) :
    ∃ later, Preserves Sound Facts (.producer : Thread Consumer) events
      (.ran .producer ⟨.storeTailIndex request.value, some (.enqueued request.value true)⟩) ghost
      later producer { producer with tailIndex := 1 + currentTailIndex } .idle := by
  obtain ⟨mapped, level⟩ := facts.stands
  have ahead : ghost.ahead = some request.value := facts.ahead
  have shown : published (events ++ [.ran (.producer : Thread Consumer)
      ⟨.storeTailIndex request.value, some (.enqueued request.value true)⟩]) =
        published events ++ [request.value] := published_ran ..
  have length := congrArg List.length shown
  rw [List.length_append, List.length_singleton] at length
  have stored := sound.stored
  have trailed := sound.trailed
  rw [Ghost.values, ahead, Option.toList_some] at stored trailed
  have known := tail_held sound mapped
  have steady : ∀ name, Steady name ghost { ghost with ahead := none } producer
      { producer with tailIndex := 1 + currentTailIndex } :=
    fun name => .of_same name rfl rfl rfl rfl
  refine ⟨{ ghost with ahead := none }, ⟨sound.indexed, ?_, ?_, ?_, ?_⟩,
    ⟨⟨?_, level⟩, facts.fresh, rfl⟩, fun other apart point mine => ?_⟩
  · rw [Ghost.values, shown, Option.toList_none, List.append_nil]
    exact ⟨stored.absent, stored.emptied, stored.opened, stored.contents, stored.vacant,
      stored.distinct, stored.fresh, stored.requisitioned⟩
  · rw [taken_ran]
    exact sound.owned.of_same rfl rfl
  · rw [Ghost.values, shown, Option.toList_none, List.append_nil, moves_producer, claims_quiet rfl]
    exact trailed.reassign rfl (fun _ => rfl) (fun _ => rfl) fun _ => rfl
  · rw [length]
    refine ⟨?_, ?_, fun less => ?_⟩
    · change _ ≤ 32 * ghost.mapped
      omega
    · change ghost.mapped ≤ _
      omega
    · change _ < 32 * ghost.mapped at less
      rw [show ((published events).length + 1) / 32 = (published events).length / 32 by omega]
      exact known
  · rw [length]
    change ghost.mapped = _
    omega
  · cases other with
    | producer => exact absurd rfl apart
    | consumer name => exact (steady name).facts sound.indexed mine

end Publish

section Steps

variable (sound : Sound events ghost producer) (accounts : Accounts events producer pc)
  (facts : ProducerFacts events ghost producer pc)

include sound

/-- A step of the producer that changes nothing. -/
theorem producer_reads (facts : ProducerFacts events ghost producer pc)
    (stands : next.Enqueuing ghost producer (published events).length)
    (fresh : next.fresh = pc.fresh) (ahead : next.ahead = pc.ahead)
    (quiet : output.access.published = none)
    (takes : output.access.taken = 0) :
    ∃ later, Preserves Sound Facts (.producer : Thread Consumer) events (.ran .producer output)
      ghost later producer producer next :=
  ⟨ghost, producer_keeps sound sound
    ⟨stands, facts.fresh.trans fresh.symm, facts.ahead.trans ahead.symm⟩
    (fun consumer => .of_same consumer rfl rfl rfl rfl) quiet takes⟩

include accounts facts

theorem enqueues_makes (taken : Enqueues maxSubqueueSize producer pc after next output) :
    ∃ later, Preserves Sound Facts (.producer : Thread Consumer) events (.ran .producer output)
      ghost later producer after next := by
  have stands := facts.stands
  have ordered := accounts.ordered
  cases taken with
  | loadTailFirst request first =>
      obtain ⟨mapped, level⟩ := stands
      rw [accounts.tail, blockOffset_eq_zero] at first
      exact producer_reads sound facts ⟨by omega, level⟩ rfl rfl rfl rfl
  | loadTail request inside =>
      obtain ⟨mapped, level⟩ := stands
      rw [accounts.tail, Ne, blockOffset_eq_zero] at inside
      exact producer_reads sound facts ⟨by omega, level⟩ rfl rfl rfl rfl
  | headAborts request currentTailIndex behind =>
      have room := accounts.room
      rw [accounts.current currentTailIndex rfl, accounts.head,
        circularLessThan_iff (by omega) (by omega)] at behind
      omega
  | full request currentTailIndex noRoom =>
      obtain ⟨tail, level⟩ := stands
      exact producer_reads sound facts ⟨by omega, level⟩ rfl rfl rfl rfl
  | loadHead request currentTailIndex room =>
      exact producer_reads sound facts stands rfl rfl rfl rfl
  | noIndex request currentTailIndex null =>
      obtain ⟨tail, level⟩ := stands
      exact producer_reads sound facts ⟨by omega, level⟩ rfl rfl rfl rfl
  | keyAborts request currentTailIndex present missing =>
      obtain ⟨pointer, current⟩ := Option.ne_none_iff_exists'.mp present
      obtain ⟨newTail, entry, found, behind⟩ := exists_behind sound.indexed current
      exact absurd behind (missing _ _ _ _)
  | keyInvalid request currentTailIndex behind invalid =>
      obtain ⟨tail, level⟩ := stands
      obtain ⟨position, here⟩ := at_of_behind sound.indexed level behind
      have reach := sound.indexed.reach_le_top behind.current
      rw [position.top] at reach
      exact producer_reads sound facts
        ⟨tail, position, vacant_of_invalid sound.indexed here invalid, reach⟩ rfl rfl rfl rfl
  | keyValid request currentTailIndex behind valid =>
      obtain ⟨tail, level⟩ := stands
      obtain ⟨position, _⟩ := at_of_behind sound.indexed level behind
      exact producer_reads sound facts ⟨tail, level, position⟩ rfl rfl rfl rfl
  | valueAborts request currentTailIndex pointer newTail entry missing =>
      obtain ⟨_, _, position⟩ := stands
      exact absurd missing (position.present sound.indexed)
  | valueNull request currentTailIndex pointer newTail entry here null =>
      obtain ⟨tail, _, position⟩ := stands
      have reach := sound.indexed.reach_le_top position.current
      rw [position.top] at reach
      exact producer_reads sound facts
        ⟨tail, position, vacant_of_null sound.indexed here null, reach⟩ rfl rfl rfl rfl
  | valueUsed request currentTailIndex pointer newTail entry here used =>
      obtain ⟨tail, level, position⟩ := stands
      have present : producer.index.blockIndex ≠ none := by
        rw [position.current]
        exact nofun
      exact producer_reads sound facts
        ⟨tail, level, present, position.reach level sound.indexed here used⟩ rfl rfl rfl rfl
  | newIndexFails request currentTailIndex refused =>
      obtain ⟨tail, level, _⟩ := stands
      exact producer_reads sound facts ⟨by omega, level⟩ rfl rfl rfl rfl
  | newIndex request currentTailIndex fits => exact makes_newIndex sound facts fits
  | assertKeyAborts request currentTailIndex wrong =>
      obtain ⟨_, _, pointer, newTail, entry, found, behind, invalid⟩ := stands
      exact absurd invalid (wrong _ _ _ _ behind)
  | assertKey request currentTailIndex behind invalid =>
      obtain ⟨tail, level, _⟩ := stands
      obtain ⟨position, here⟩ := at_of_behind sound.indexed level behind
      have reach := sound.indexed.reach_le_top behind.current
      rw [position.top] at reach
      exact producer_reads sound facts
        ⟨tail, position, vacant_of_invalid sound.indexed here invalid, reach⟩ rfl rfl rfl rfl
  | storeKey request currentTailIndex pointer newTail entry =>
      exact makes_storeKey sound facts (accounts.current currentTailIndex rfl)
  | storeIndexTail request currentTailIndex pointer newTail entry =>
      exact makes_storeIndexTail sound facts
  | requisitionFails request currentTailIndex entry refused =>
      exact producer_reads sound facts stands rfl rfl rfl rfl
  | requisition request currentTailIndex entry given free =>
      exact makes_requisition sound facts free
  | rewindAborts request entry missing =>
      obtain ⟨_, given⟩ := stands
      obtain ⟨pointer, header, current, here, _⟩ := given.ring
      exact absurd here (missing pointer header current)
  | rewind request entry current here => exact makes_rewind sound facts ordered current here
  | clearValue request entry => exact makes_clearValue sound facts
  | resetEmpty request currentTailIndex entry block => exact makes_resetEmpty sound facts
  | storeValue request currentTailIndex entry block => exact makes_storeValue sound facts ordered
  | constructAborts request currentTailIndex occupied =>
      obtain ⟨mapped, _⟩ := stands
      obtain ⟨block, _, tailBlock⟩ := tail_held sound mapped
      refine absurd ?_ (occupied block tailBlock)
      rw [accounts.current currentTailIndex rfl, blockOffset_toNat]
      exact tail_vacant sound ordered mapped facts.ahead tailBlock
  | construct request currentTailIndex tailBlock vacant =>
      exact makes_construct sound ordered (accounts.current currentTailIndex rfl) facts tailBlock
  | storeTail request currentTailIndex =>
      exact makes_storeTail sound facts

end Steps

end DmLockFree.ConcurrentQueue.ImplicitProducer
