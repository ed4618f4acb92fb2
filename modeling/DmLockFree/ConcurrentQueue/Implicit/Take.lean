import DmLockFree.ConcurrentQueue.Implicit.Find

/-! A consumer claims indices and moves their elements. -/

set_option autoImplicit false

namespace DmLockFree.ConcurrentQueue.ImplicitProducer

open Library Program

variable {Consumer T : Type} [DecidableEq Consumer] {ghost : Ghost Consumer T}
  {producer after : ImplicitProducer T} {events : List (Event Consumer T)} {consumer : Consumer}

section Owners

variable {owner other : Nat → Owner Consumer} {values : List T} {index number : Nat}

omit [DecidableEq Consumer] in
theorem finished_iff {state : Owner Consumer} : state.finished = true ↔ state = .counted := by
  cases state <;> simp [Owner.finished]

omit [DecidableEq Consumer] in
theorem finishedIn_congr (same : ∀ offset, offset < 32 →
    (other (32 * number + offset)).finished = (owner (32 * number + offset)).finished) :
    finishedIn other number = finishedIn owner number := by
  apply Finset.filter_congr
  intro offset member
  rw [same offset (Finset.mem_range.mp member)]

omit [DecidableEq Consumer] in
theorem content_congr (same : (other index).present = (owner index).present) :
    content values other index = content values owner index := by
  rw [content, content, same]

omit [DecidableEq Consumer] in
/-- The blocks do not see who has claimed what. -/
theorem Stored.reassign (stored : Stored ghost values producer) {later : Ghost Consumer T}
    (stage : later.stage = ghost.stage) (mapped : later.mapped = ghost.mapped)
    (fresh : later.fresh = ghost.fresh)
    (present : ∀ index, (later.owner index).present = (ghost.owner index).present)
    (finished : ∀ index, (later.owner index).finished = (ghost.owner index).finished) :
    Stored later values producer := by
  have held : later.held = ghost.held := by
    funext number
    rw [Ghost.held, Ghost.held, stage]
  refine ⟨?_, fun index emptied => ?_, fun number block opened => ?_, fun index block here => ?_, ?_,
    ?_, ?_, ?_⟩
  · rw [stage, mapped]
    exact stored.absent
  · rw [stage] at emptied
    rw [← finished_iff, finished, finished_iff]
    exact stored.emptied index emptied
  · rw [stage] at opened
    rw [finishedIn_congr fun offset _ => finished (32 * number + offset)]
    exact stored.opened number block opened
  · rw [held] at here
    rw [content_congr (present index)]
    exact stored.contents index block here
  · rw [held]
    exact stored.vacant
  · rw [held]
    exact stored.distinct
  · rw [held, fresh]
    exact stored.fresh
  · rw [held, fresh]
    exact stored.requisitioned

omit [DecidableEq Consumer] in
/-- The trail does not, either. -/
theorem Trailed.reassign {moves : List (Consumer × T)} {claims : List (Consumer × Nat)}
    (trailed : Trailed ghost values moves claims) {later : Ghost Consumer T}
    (trail : later.trail = ghost.trail)
    (present : ∀ index, (later.owner index).present = (ghost.owner index).present)
    (index : ∀ consumer, (later.claim consumer).index = (ghost.claim consumer).index)
    (stop : ∀ consumer, (later.claim consumer).stop = (ghost.claim consumer).stop) :
    Trailed later values moves claims := by
  refine ⟨?_, fun number => ?_, fun step member => ?_, ?_, ?_, fun consumer mine own => ?_⟩
  · rw [trail]
    exact trailed.once
  · rw [trail, present]
    exact trailed.gone number
  · rw [trail] at member
    rw [index]
    exact trailed.before step member
  · rw [trail]
    exact trailed.ordered
  · rw [trail]
    exact trailed.moves
  · rw [trail, index, stop]
    exact trailed.shares consumer mine own

omit [DecidableEq Consumer] in
theorem values_quiet {later : Ghost Consumer T} {thread : Thread Consumer} {output : Output T}
    (ahead : later.ahead = ghost.ahead) (quiet : output.access.published = none) :
    later.values (events ++ [.ran thread output]) = ghost.values events := by
  rw [Ghost.values, Ghost.values, ahead, published_quiet quiet]

end Owners

section Claim

/-- The next indices are claimed. -/
def Ghost.take (ghost : Ghost Consumer T) (consumer : Consumer) (head amount : Nat) :
    Ghost Consumer T :=
  { ghost with
    owner := fun index =>
      if head ≤ index ∧ index < head + amount then .claimed consumer else ghost.owner index
    claim := Function.update ghost.claim consumer ⟨head, head, head, head + amount⟩ }

variable {head amount : Nat}

theorem take_within {index : Nat} (within : head ≤ index ∧ index < head + amount) :
    (ghost.take consumer head amount).owner index = .claimed consumer := if_pos within

theorem take_outside {index : Nat} (outside : ¬ (head ≤ index ∧ index < head + amount)) :
    (ghost.take consumer head amount).owner index = ghost.owner index := if_neg outside

theorem take_claim_self : (ghost.take consumer head amount).claim consumer =
    ⟨head, head, head, head + amount⟩ := Function.update_self ..

theorem take_claim_of_ne {other : Consumer} (apart : other ≠ consumer) :
    (ghost.take consumer head amount).claim other = ghost.claim other :=
  Function.update_of_ne apart ..

theorem take_present (owned : Owned ghost head) (index : Nat) :
    ((ghost.take consumer head amount).owner index).present = (ghost.owner index).present := by
  by_cases within : head ≤ index ∧ index < head + amount
  · rw [take_within within, (owned.waiting index).mpr within.1]
    rfl
  · rw [take_outside within]

theorem Owned.take (owned : Owned ghost head)
    (done : (ghost.claim consumer).start = (ghost.claim consumer).stop) (few : amount < 2 ^ 63) :
    Owned (ghost.take consumer head amount) (head + amount) := by
  have start := owned.start_le consumer
  have stop := owned.index_le consumer
  have none : ∀ other index, head ≤ index → ghost.owner index ≠ .claimed other ∧
      ghost.owner index ≠ .moved other := by
    intro other index above
    rw [(owned.waiting index).mpr above]
    exact ⟨nofun, nofun⟩
  have below : ∀ other index, index < (ghost.claim other).stop → index < head :=
    fun other index less => Nat.lt_of_lt_of_le less (owned.stop_le other)
  refine ⟨fun index => ?_, fun other index => ?_, fun other index => ?_, fun other => ?_,
    fun other => ?_, fun other => ?_, fun other => ?_, fun other => ?_⟩
  · have waits := owned.waiting index
    by_cases within : head ≤ index ∧ index < head + amount
    · rw [take_within within]
      exact iff_of_false nofun (by omega)
    · rw [take_outside within, waits]
      omega
  · by_cases same : other = consumer
    · subst same
      rw [take_claim_self]
      by_cases within : head ≤ index ∧ index < head + amount
      · rw [take_within within]
        exact iff_of_true rfl within
      · rw [take_outside within, owned.claimed other index]
        exact iff_of_false (by omega) within
    · rw [take_claim_of_ne same]
      by_cases within : head ≤ index ∧ index < head + amount
      · rw [take_within within]
        refine iff_of_false (fun equal => same (Owner.claimed.inj equal).symm) fun mine => ?_
        exact (none other index within.1).1 ((owned.claimed other index).mpr mine)
      · rw [take_outside within]
        exact owned.claimed other index
  · by_cases same : other = consumer
    · subst same
      rw [take_claim_self]
      by_cases within : head ≤ index ∧ index < head + amount
      · rw [take_within within]
        exact iff_of_false nofun (by simp only []; omega)
      · rw [take_outside within, owned.moved other index]
        exact iff_of_false (by omega) (by simp only []; omega)
    · rw [take_claim_of_ne same]
      by_cases within : head ≤ index ∧ index < head + amount
      · rw [take_within within]
        refine iff_of_false nofun fun mine => ?_
        exact (none other index within.1).2 ((owned.moved other index).mpr mine)
      · rw [take_outside within]
        exact owned.moved other index
  · rcases eq_or_ne other consumer with rfl | apart
    · rw [take_claim_self]
    · rw [take_claim_of_ne apart]
      exact owned.first_le other
  · rcases eq_or_ne other consumer with rfl | apart
    · rw [take_claim_self]
    · rw [take_claim_of_ne apart]
      exact owned.start_le other
  · rcases eq_or_ne other consumer with rfl | apart
    · rw [take_claim_self]
      exact Nat.le_add_right ..
    · rw [take_claim_of_ne apart]
      exact owned.index_le other
  · rcases eq_or_ne other consumer with rfl | apart
    · rw [take_claim_self]
    · rw [take_claim_of_ne apart]
      exact Nat.le_add_right_of_le (owned.stop_le other)
  · rcases eq_or_ne other consumer with rfl | apart
    · rw [take_claim_self]
      exact Nat.add_lt_add_left few head
    · rw [take_claim_of_ne apart]
      exact owned.close other

theorem Trailed.take {values : List T} {moves : List (Consumer × T)}
    {claims : List (Consumer × Nat)} (trailed : Trailed ghost values moves claims)
    (owned : Owned ghost head) (done : (ghost.claim consumer).start = (ghost.claim consumer).stop) :
    Trailed (ghost.take consumer head amount) values moves
      (claims ++ (List.range' head amount).map fun index => (consumer, index)) := by
  have all : (ghost.claim consumer).index = (ghost.claim consumer).stop := by
    have start := owned.start_le consumer
    have index := owned.index_le consumer
    omega
  refine ⟨trailed.once, fun index => ?_, fun step member => ?_, trailed.ordered, trailed.moves,
    fun other mine own => ?_⟩
  · rw [take_present owned]
    exact trailed.gone index
  · have before := trailed.before step member
    rcases eq_or_ne step.1 consumer with same | apart
    · rw [same] at before ⊢
      rw [take_claim_self]
      exact Nat.lt_of_lt_of_le before (Nat.le_trans (owned.index_le _) (owned.stop_le _))
    · rw [take_claim_of_ne apart]
      exact before
  · have before := trailed.shares other mine own
    rw [select_append, ← before]
    rcases eq_or_ne other consumer with rfl | apart
    · rw [take_claim_self, select_own ((own other).mpr rfl), all, Nat.sub_self, List.range'_zero,
        List.append_nil]
      change _ ++ List.range' head (head + amount - head) = _
      rw [Nat.add_sub_cancel_left]
      rfl
    · have others : mine consumer = false :=
        Bool.eq_false_iff.mpr fun same => apart ((own consumer).mp same).symm
      rw [take_claim_of_ne apart, select_other others, List.append_nil]
      rfl

/-- The claim of a consumer, which has finished the one before. -/
theorem takes_claim {actualCount : UInt64} (sound : Sound events ghost producer)
    (facts : ConsumerFacts consumer ghost producer (.deqClaim actualCount))
    (first : producer.headIndex = .ofNat (taken events)) (some : 0 < actualCount.toNat)
    (few : actualCount.toNat < 2 ^ 63) :
    ∃ later, Preserves Sound Facts (.consumer consumer) events
      (.ran (.consumer consumer) ⟨.claim producer.headIndex actualCount, none⟩) ghost later producer
      { producer with headIndex := producer.headIndex + actualCount }
      (.findLoadIndex producer.headIndex (producer.headIndex + actualCount)) := by
  have owned := sound.owned
  have done : (ghost.claim consumer).start = (ghost.claim consumer).stop := facts.stands
  have finished : ∀ index, ((ghost.take consumer (taken events) actualCount.toNat).owner
      index).finished = (ghost.owner index).finished := by
    intro index
    by_cases within : taken events ≤ index ∧ index < taken events + actualCount.toNat
    · rw [take_within within, (owned.waiting index).mpr within.1]
      rfl
    · rw [take_outside within]
  have quiet : Quiet ghost (ghost.take consumer (taken events) actualCount.toNat) producer
      { producer with headIndex := producer.headIndex + actualCount } := by
    refine ⟨rfl, rfl, rfl, fun entry found here => ⟨found.value, here, id⟩, rfl, rfl, rfl, rfl, ?_,
      fun _ _ => rfl⟩
    exact fun _ _ stands => stands
  have stored : Stored (ghost.take consumer (taken events) actualCount.toNat)
      (ghost.values events) producer :=
    sound.stored.reassign rfl rfl rfl (take_present owned) finished
  refine ⟨ghost.take consumer (taken events) actualCount.toNat, ⟨sound.indexed, ?_, ?_, ?_, ?_⟩,
    ⟨?_, facts.clears, facts.releases⟩, fun other apart point mine => ?_⟩
  · rw [values_quiet rfl rfl]
    exact ⟨stored.absent, stored.emptied, stored.opened, stored.contents, stored.vacant,
      stored.distinct, stored.fresh, stored.requisitioned⟩
  · rw [taken_ran]
    exact owned.take done few
  · rw [values_quiet rfl rfl, moves_quiet rfl, claims_snoc]
    exact sound.trailed.take owned done
  · rw [published_quiet rfl]
    exact ⟨sound.ended.tail_le, sound.ended.mapped_le, sound.ended.tailBlock⟩
  · rw [take_claim_self, first]
    refine ⟨rfl, ?_, rfl, rfl, Nat.lt_add_of_pos_right some⟩
    rw [UInt64.ofNat_add, UInt64.ofNat_toNat]
  · cases other with
    | producer => exact quiet.facts (published_quiet rfl) mine
    | consumer name =>
        have different : name ≠ consumer := fun same => apart (congrArg _ same)
        refine (quiet.steady (take_claim_of_ne different) ?_ ?_ ?_).facts sound.indexed mine
        · exact fun _ _ _ _ opened => opened
        · exact fun _ _ => Iff.rfl
        · exact fun _ _ => Iff.rfl

end Claim

section Move

/-- The element at the index of a consumer is moved. -/
def Ghost.shift (ghost : Ghost Consumer T) (consumer : Consumer) : Ghost Consumer T :=
  { ghost with
    owner := Function.update ghost.owner (ghost.claim consumer).index (.moved consumer)
    claim := Function.update ghost.claim consumer
      { ghost.claim consumer with index := (ghost.claim consumer).index + 1 }
    trail := ghost.trail ++ [(consumer, (ghost.claim consumer).index)] }

theorem shift_claim_self : (ghost.shift consumer).claim consumer =
    { ghost.claim consumer with index := (ghost.claim consumer).index + 1 } :=
  Function.update_self ..

theorem shift_claim_of_ne {other : Consumer} (apart : other ≠ consumer) :
    (ghost.shift consumer).claim other = ghost.claim other :=
  Function.update_of_ne apart ..

theorem shift_owner_self :
    (ghost.shift consumer).owner (ghost.claim consumer).index = .moved consumer :=
  Function.update_self ..

theorem shift_owner_of_ne {index : Nat} (apart : index ≠ (ghost.claim consumer).index) :
    (ghost.shift consumer).owner index = ghost.owner index :=
  Function.update_of_ne apart ..

variable {taken : Nat} (some : (ghost.claim consumer).index < (ghost.claim consumer).stop)

include some

omit [DecidableEq Consumer] in
theorem Owned.next (owned : Owned ghost taken) :
    ghost.owner (ghost.claim consumer).index = .claimed consumer :=
  (owned.claimed consumer _).mpr ⟨Nat.le_refl _, some⟩

theorem Owned.shift (owned : Owned ghost taken) : Owned (ghost.shift consumer) taken := by
  have next := owned.next some
  have start := owned.start_le consumer
  refine ⟨fun index => ?_, fun other index => ?_, fun other index => ?_, fun other => ?_,
    fun other => ?_, fun other => ?_, fun other => ?_, fun other => ?_⟩
  · rcases eq_or_ne index (ghost.claim consumer).index with rfl | apart
    · rw [shift_owner_self, ← owned.waiting, next]
      exact iff_of_false nofun nofun
    · rw [shift_owner_of_ne apart]
      exact owned.waiting index
  · rcases eq_or_ne index (ghost.claim consumer).index with rfl | apart
    · rw [shift_owner_self]
      refine iff_of_false nofun fun mine => ?_
      rcases eq_or_ne other consumer with rfl | different
      · rw [shift_claim_self] at mine
        exact absurd mine.1 (Nat.not_succ_le_self _)
      · rw [shift_claim_of_ne different, ← owned.claimed, next] at mine
        exact different (Owner.claimed.inj mine).symm
    · rw [shift_owner_of_ne apart, owned.claimed other index]
      rcases eq_or_ne other consumer with rfl | different
      · rw [shift_claim_self]
        simp only []
        omega
      · rw [shift_claim_of_ne different]
  · rcases eq_or_ne index (ghost.claim consumer).index with rfl | apart
    · rw [shift_owner_self]
      rcases eq_or_ne other consumer with rfl | different
      · rw [shift_claim_self]
        exact iff_of_true rfl ⟨start, Nat.lt_succ_self _⟩
      · rw [shift_claim_of_ne different]
        refine iff_of_false (fun same => different (Owner.moved.inj same).symm) fun mine => ?_
        rw [← owned.moved, next] at mine
        cases mine
    · rw [shift_owner_of_ne apart, owned.moved other index]
      rcases eq_or_ne other consumer with rfl | different
      · rw [shift_claim_self]
        simp only []
        omega
      · rw [shift_claim_of_ne different]
  · rcases eq_or_ne other consumer with rfl | apart
    · rw [shift_claim_self]
      exact owned.first_le other
    · rw [shift_claim_of_ne apart]
      exact owned.first_le other
  · rcases eq_or_ne other consumer with rfl | apart
    · rw [shift_claim_self]
      exact Nat.le_succ_of_le start
    · rw [shift_claim_of_ne apart]
      exact owned.start_le other
  · rcases eq_or_ne other consumer with rfl | apart
    · rw [shift_claim_self]
      exact some
    · rw [shift_claim_of_ne apart]
      exact owned.index_le other
  · rcases eq_or_ne other consumer with rfl | apart
    · rw [shift_claim_self]
      exact owned.stop_le other
    · rw [shift_claim_of_ne apart]
      exact owned.stop_le other
  · rcases eq_or_ne other consumer with rfl | apart
    · rw [shift_claim_self]
      exact owned.close other
    · rw [shift_claim_of_ne apart]
      exact owned.close other

theorem Trailed.shift {values : List T} {moves : List (Consumer × T)}
    {claims : List (Consumer × Nat)} {value : T} (trailed : Trailed ghost values moves claims)
    (owned : Owned ghost taken)
    (here : values[(ghost.claim consumer).index]? = Option.some value) :
    Trailed (ghost.shift consumer) values (moves ++ [(consumer, value)]) claims := by
  have next := owned.next some
  have fresh : (ghost.claim consumer).index ∉ ghost.trail.map Prod.snd := by
    rw [trailed.gone, next]
    exact nofun
  refine ⟨?_, fun index => ?_, fun step member => ?_, ?_, ?_, fun other mine own => ?_⟩
  · rw [Ghost.shift, List.map_append, List.map_singleton, ← List.concat_eq_append]
    exact trailed.once.concat fresh
  · rw [Ghost.shift, List.map_append, List.map_singleton, List.mem_append, trailed.gone,
      List.mem_singleton]
    change _ ↔ ((ghost.shift consumer).owner index).present = false
    rcases eq_or_ne index (ghost.claim consumer).index with rfl | apart
    · rw [shift_owner_self]
      exact iff_of_true (.inr rfl) rfl
    · rw [shift_owner_of_ne apart]
      exact or_iff_left apart
  · rcases List.mem_append.mp member with old | new
    · have before := trailed.before step old
      rcases eq_or_ne step.1 consumer with same | apart
      · rw [same] at before ⊢
        rw [shift_claim_self]
        exact Nat.lt_succ_of_lt before
      · rw [shift_claim_of_ne apart]
        exact before
    · rw [List.mem_singleton.mp new, shift_claim_self]
      exact Nat.lt_succ_self _
  · rw [Ghost.shift, List.pairwise_append]
    refine ⟨trailed.ordered, List.pairwise_singleton .., fun left old right new same => ?_⟩
    rw [List.mem_singleton.mp new] at same ⊢
    have before := trailed.before left old
    rwa [same] at before
  · rw [Ghost.shift, List.map_append, List.map_append, trailed.moves, List.map_singleton,
      List.map_singleton, Prod.map_apply, Prod.map_apply, here]
  · rw [← trailed.shares other mine own]
    change select mine (ghost.trail ++ [(consumer, (ghost.claim consumer).index)]) ++ _ = _
    rw [select_append]
    rcases eq_or_ne other consumer with rfl | apart
    · have left : (ghost.claim other).stop - (ghost.claim other).index =
          (ghost.claim other).stop - ((ghost.claim other).index + 1) + 1 := by omega
      have moved := select_own ((own other).mpr rfl) [(ghost.claim other).index]
      rw [List.map_singleton] at moved
      rw [moved, shift_claim_self, left, List.range'_succ, List.append_assoc]
      rfl
    · have others := select_other (Bool.eq_false_iff.mpr fun same =>
        apart ((own consumer).mp same).symm) [(ghost.claim consumer).index]
      rw [List.map_singleton] at others
      rw [others, shift_claim_of_ne apart, List.append_nil]

omit [DecidableEq Consumer] in
/-- The next element of a claim is in its block. -/
theorem Sound.present (sound : Sound events ghost producer)
    (ordered : ImplicitProducer.taken events ≤ (published events).length) {block : Nat}
    (held : ghost.held ((ghost.claim consumer).index / 32) = Option.some block) :
    ∃ value, (ghost.values events)[(ghost.claim consumer).index]? = Option.some value ∧
      (producer.blocks block).elements ((ghost.claim consumer).index % 32) = Option.some value := by
  have next := sound.owned.next some
  have stop := sound.owned.stop_le consumer
  have within : (ghost.claim consumer).index < (ghost.values events).length := by
    rw [Ghost.values, List.length_append]
    omega
  refine ⟨_, List.getElem?_eq_getElem within, ?_⟩
  rw [sound.stored.contents _ block held, content, next, List.getElem?_eq_getElem within]
  rfl

theorem Stored.shift {values : List T} (stored : Stored ghost values producer)
    (owned : Owned ghost taken) {block : Nat}
    (opened : ghost.stage ((ghost.claim consumer).index / 32) = .opened block) :
    Stored (ghost.shift consumer) values
      (producer.setElement block ((ghost.claim consumer).index % 32) none) := by
  have next := owned.next some
  have held := held_of_opened opened
  have finished : ∀ index, ((ghost.shift consumer).owner index).finished =
      (ghost.owner index).finished := by
    intro index
    rcases eq_or_ne index (ghost.claim consumer).index with rfl | apart
    · rw [shift_owner_self, next]
      rfl
    · rw [shift_owner_of_ne apart]
  have counter : ∀ other, ((producer.setElement block ((ghost.claim consumer).index % 32)
      none).blocks other).elementsCompletelyDequeued =
        (producer.blocks other).elementsCompletelyDequeued := by
    intro other
    rcases eq_or_ne other block with rfl | apart
    · simp only [setElement, Function.update_self]
    · simp only [setElement, Function.update_of_ne apart]
  refine ⟨stored.absent, fun index emptied => ?_, fun number other open_ => ?_,
    fun index other here => ?_, fun other free offset below => ?_, stored.distinct, stored.fresh,
    stored.requisitioned⟩
  · rw [← finished_iff, finished, finished_iff]
    exact stored.emptied index emptied
  · rw [counter, finishedIn_congr fun offset _ => finished (32 * number + offset)]
    exact stored.opened number other open_
  · have before := stored.contents index other here
    rcases eq_or_ne index (ghost.claim consumer).index with rfl | apart
    · cases held.symm.trans here
      rw [content, shift_owner_self]
      simp only [setElement, Function.update_self]
      rfl
    · rw [content_congr (congrArg Owner.present (shift_owner_of_ne apart)), ← before]
      rcases eq_or_ne other block with rfl | different
      · have same := stored.distinct _ _ other here held
        have offset : index % 32 ≠ (ghost.claim consumer).index % 32 := by omega
        simp only [setElement, Function.update_self, Function.update_of_ne offset]
      · simp only [setElement, Function.update_of_ne different]
  · have different : other ≠ block := by
      intro same
      subst same
      exact free _ held
    simp only [setElement, Function.update_of_ne different]
    exact stored.vacant other free offset below

end Move

section Steps

/-- One element of the claim is moved. -/
theorem takes_move {pc next : Pc T} {block : Nat} {index : UInt64} {value : T}
    (sound : Sound events ghost producer) (facts : ConsumerFacts consumer ghost producer pc)
    (ordered : taken events ≤ (published events).length)
    (some : (ghost.claim consumer).index < (ghost.claim consumer).stop)
    (word : index = .ofNat (ghost.claim consumer).index)
    (opened : ghost.stage ((ghost.claim consumer).index / 32) = .opened block)
    (present : (producer.blocks block).elements (blockOffset index).toNat = Option.some value)
    (stands : ∀ after, after.index = producer.index → next.Dequeuing consumer (ghost.shift consumer)
      after ((ghost.shift consumer).claim consumer))
    (clears : next.clears = pc.clears) (releases : next.releases = pc.releases) :
    ∃ later, Preserves Sound Facts (.consumer consumer) events
      (.ran (.consumer consumer) ⟨.move index value, none⟩) ghost later producer
      (producer.setElement block (blockOffset index).toNat none) next := by
  have offset : (blockOffset index).toNat = (ghost.claim consumer).index % 32 := by
    rw [word, blockOffset_toNat]
  rw [offset] at present ⊢
  obtain ⟨found, here, there⟩ := sound.present some ordered (held_of_opened opened)
  cases present.symm.trans there
  have quiet : Quiet ghost (ghost.shift consumer) producer
      (producer.setElement block ((ghost.claim consumer).index % 32) none) := by
    refine ⟨rfl, rfl, rfl, fun entry found here => ⟨found.value, here, id⟩, rfl, rfl, rfl, rfl, ?_,
      fun fresh _ => ?_⟩
    · exact fun _ _ stands => stands
    · rcases eq_or_ne fresh block with rfl | apart
      · simp only [setElement, Function.update_self]
      · simp only [setElement, Function.update_of_ne apart]
  refine ⟨ghost.shift consumer, ⟨sound.indexed, ?_, ?_, ?_, ?_⟩, ⟨stands _ rfl, ?_, ?_⟩,
    fun other apart point mine => ?_⟩
  · rw [values_quiet rfl rfl]
    exact sound.stored.shift some sound.owned opened
  · rw [taken_ran]
    exact sound.owned.shift some
  · rw [values_quiet rfl rfl, moves_consumer, claims_quiet rfl]
    exact sound.trailed.shift some sound.owned here
  · rw [published_quiet rfl]
    exact ⟨sound.ended.tail_le, sound.ended.mapped_le, sound.ended.tailBlock⟩
  · rw [clears]
    exact facts.clears
  · rw [releases]
    exact facts.releases
  · cases other with
    | producer => exact quiet.facts (published_quiet rfl) mine
    | consumer name =>
        have different : name ≠ consumer := fun same => apart (congrArg _ same)
        refine (quiet.steady (shift_claim_of_ne different) ?_ ?_ ?_).facts sound.indexed mine
        · exact fun _ _ _ _ opened => opened
        · exact fun _ _ => Iff.rfl
        · exact fun _ _ => Iff.rfl

end Steps

end DmLockFree.ConcurrentQueue.ImplicitProducer
