import DmLockFree.ConcurrentQueue.Implicit.Count

/-! A consumer takes the block that it has emptied out of the block index and releases it. -/

set_option autoImplicit false

namespace DmLockFree.ConcurrentQueue.ImplicitProducer

open Library Program

variable {Consumer T : Type} {ghost : Ghost Consumer T} {producer : ImplicitProducer T}
  {events : List (Event Consumer T)} {consumer : Consumer} {number block : Nat}
  {stage : Stage Consumer} {walk : Walk} {endIndex : UInt64}

def Ghost.setStage (ghost : Ghost Consumer T) (number : Nat) (stage : Stage Consumer) :
    Ghost Consumer T :=
  { ghost with stage := Function.update ghost.stage number stage }

theorem setStage_self : (ghost.setStage number stage).stage number = stage :=
  Function.update_self ..

theorem setStage_of_ne {other : Nat} (apart : other ≠ number) :
    (ghost.setStage number stage).stage other = ghost.stage other :=
  Function.update_of_ne apart ..

theorem setStage_used : (ghost.setStage number stage).used =
    Function.update ghost.used number stage.used := by
  funext other
  rcases eq_or_ne other number with rfl | apart
  · rw [Ghost.used, setStage_self, Function.update_self]
  · rw [Ghost.used, setStage_of_ne apart, Function.update_of_ne apart]
    rfl

theorem setStage_held : (ghost.setStage number stage).held =
    Function.update ghost.held number stage.held := by
  funext other
  rcases eq_or_ne other number with rfl | apart
  · rw [Ghost.held, setStage_self, Function.update_self]
  · rw [Ghost.held, setStage_of_ne apart, Function.update_of_ne apart]
    rfl

/-- Only an emptied block changes its stage, so the other consumers do not notice. -/
theorem setStage_steady {other : Consumer} {after : ImplicitProducer T} {taken : Nat}
    {values : List T} (owned : Owned ghost taken) (stored : Stored ghost values producer)
    (quiet : Quiet ghost (ghost.setStage number stage) producer after)
    (emptied : (ghost.stage number).emptied = true)
    (clearing : ∀ block, ghost.stage number ≠ .clearing other block ∧ stage ≠ .clearing other block)
    (releasing : ∀ block, ghost.stage number ≠ .releasing other block ∧
      stage ≠ .releasing other block) :
    Steady other ghost (ghost.setStage number stage) producer after := by
  refine quiet.steady rfl (fun index block above below opened => ?_) (fun second block => ?_)
    fun second block => ?_
  · have apart : index / 32 ≠ number := by
      intro same
      subst same
      exact owned.uncounted above below (stored.emptied index emptied)
    rw [setStage_of_ne apart]
    exact opened
  · rcases eq_or_ne second number with rfl | apart
    · rw [setStage_self]
      exact iff_of_false (clearing block).2 (clearing block).1
    · rw [setStage_of_ne apart]
  · rcases eq_or_ne second number with rfl | apart
    · rw [setStage_self]
      exact iff_of_false (releasing block).2 (releasing block).1
    · rw [setStage_of_ne apart]

/-- The entry of an emptied block is cleared. -/
theorem takes_clear {entry : Nat} (sound : Sound events ghost producer)
    (facts : ConsumerFacts consumer ghost producer (.deqClearValue walk endIndex entry block)) :
    ∃ later, Preserves Sound Facts (.consumer consumer) events
      (.ran (.consumer consumer) ⟨.storeValue, none⟩) ghost later producer
      (producer.setIndex (producer.index.setValue entry none))
      (.deqRelease walk endIndex block) := by
  obtain ⟨number, leaves, clearing, slot, reach⟩ := facts.stands
  have stored := sound.stored
  have used : ghost.used number = some block := by
    rw [Ghost.used, clearing]
    rfl
  have held : (ghost.setStage number (.releasing consumer block)).held = ghost.held := by
    rw [setStage_held]
    refine Function.update_eq_self_iff.mpr ?_
    rw [Ghost.held, clearing]
    rfl
  have released := sound.indexed.release used
  rw [slot] at released
  have quiet : Quiet ghost (ghost.setStage number (.releasing consumer block)) producer
      (producer.setIndex (producer.index.setValue entry none)) := by
    refine ⟨rfl, rfl, rfl, fun other found here => ?_, rfl, rfl, rfl, rfl, fun other second => ?_,
      fun _ _ => rfl⟩
    · change ∃ value, (producer.index.setValue entry none).entries[other]? = _ ∧ _
      rw [getElem?_setValue, here]
      split
      case isTrue _ => exact ⟨none, rfl, fun _ => rfl⟩
      case isFalse _ => exact ⟨found.value, rfl, id⟩
    · rw [setStage_used]
      rcases eq_or_ne other number with rfl | apart
      · rw [Function.update_self]
        exact fun same => (by cases same)
      · rw [Function.update_of_ne apart]
        exact id
  refine ⟨ghost.setStage number (.releasing consumer block), ⟨?_, ?_, ?_, ?_, ?_⟩,
    ⟨⟨number, ⟨⟨leaves.follows.first, leaves.follows.stop, leaves.follows.ring⟩, leaves.endIndex,
      leaves.start, leaves.last⟩, setStage_self⟩, ?_, ?_⟩, fun other apart point mine => ?_⟩
  · rw [setStage_used]
    exact released
  · rw [values_quiet rfl rfl]
    refine ⟨fun other => ?_, fun index emptied => ?_, fun other second opened => ?_, ?_, ?_, ?_, ?_,
      ?_⟩
    · rcases eq_or_ne other number with rfl | apart
      · have before := stored.absent other
        rw [clearing] at before
        rw [setStage_self]
        exact iff_of_false (fun same => by cases same) fun beyond => absurd (before.mpr beyond) (fun same => by cases same)
      · rw [setStage_of_ne apart]
        exact stored.absent other
    · rcases eq_or_ne (index / 32) number with rfl | apart
      · exact stored.emptied index (by rw [clearing]; rfl)
      · rw [setStage_of_ne apart] at emptied
        exact stored.emptied index emptied
    · rcases eq_or_ne other number with rfl | apart
      · rw [setStage_self] at opened
        cases opened
      · rw [setStage_of_ne apart] at opened
        exact stored.opened other second opened
    · rw [held]
      exact stored.contents
    · rw [held]
      exact stored.vacant
    · rw [held]
      exact stored.distinct
    · rw [held]
      exact stored.fresh
    · rw [held]
      exact stored.requisitioned
  · rw [taken_ran]
    exact sound.owned.of_same rfl rfl
  · rw [values_quiet rfl rfl, moves_quiet rfl, claims_quiet rfl]
    exact sound.trailed.reassign rfl (fun _ => rfl) (fun _ => rfl) fun _ => rfl
  · rw [published_quiet rfl]
    refine ⟨sound.ended.tail_le, sound.ended.mapped_le, fun less => ?_⟩
    rw [held]
    exact sound.ended.tailBlock less
  · intro other second again
    rcases eq_or_ne other number with rfl | apart
    · rw [setStage_self] at again
      cases again
    · rw [setStage_of_ne apart] at again
      cases facts.clears other second again
      refine absurd (stored.distinct other number block ?_ (Stage.held_of_used used)) apart
      rw [Ghost.held, again]
      rfl
  · intro other second again
    rcases eq_or_ne other number with rfl | apart
    · rw [setStage_self] at again
      cases again
      rfl
    · rw [setStage_of_ne apart] at again
      exact absurd (facts.releases other second again) (fun same => by cases same)
  · cases other with
    | producer => exact quiet.facts (published_quiet rfl) mine
    | consumer name =>
        have different : name ≠ consumer := fun same => apart (congrArg _ same)
        refine (setStage_steady sound.owned stored quiet (by rw [clearing]; rfl) (fun second => ?_)
          fun second => ?_).facts sound.indexed mine
        · rw [clearing]
          exact ⟨fun same => different (Stage.clearing.inj same).1.symm, (fun same => by cases same)⟩
        · rw [clearing]
          exact ⟨(fun same => by cases same), fun same => different (Stage.releasing.inj same).1.symm⟩

/-- The block of the tail is not emptied. -/
theorem Sound.tail_open (sound : Sound events ghost producer)
    (ordered : taken events ≤ (published events).length)
    (emptied : (ghost.stage number).emptied = true) : (published events).length / 32 ≠ number := by
  intro same
  subst same
  have counted := sound.stored.emptied _ emptied
  rw [(sound.owned.waiting _).mpr ordered] at counted
  cases counted

/-- An emptied block goes back to the memory of the queue. -/
theorem takes_release {header : BlockIndexHeader} {returned : Option (Return T)}
    (sound : Sound events ghost producer)
    (ordered : taken events ≤ (published events).length)
    (facts : ConsumerFacts consumer ghost producer (.deqRelease walk endIndex block))
    (here : producer.index.header walk.pointer = some header) :
    ∃ later, Preserves Sound Facts (.consumer consumer) events
      (.ran (.consumer consumer) ⟨.release block, returned⟩) ghost later producer
      (producer.setRequisitioned block false) (walk.next header endIndex).1 := by
  obtain ⟨number, leaves, releasing⟩ := facts.stands
  have stored := sound.stored
  have emptied : (ghost.stage number).emptied = true := by
    rw [releasing]
    rfl
  have mine : ghost.held number = some block := by
    rw [Ghost.held, releasing]
    rfl
  have used : (ghost.setStage number .released).used = ghost.used := by
    rw [setStage_used]
    refine Function.update_eq_self_iff.mpr ?_
    rw [Ghost.used, releasing]
    rfl
  have held : ∀ other second, (ghost.setStage number .released).held other = some second ↔
      other ≠ number ∧ ghost.held other = some second := by
    intro other second
    rw [setStage_held]
    rcases eq_or_ne other number with rfl | apart
    · rw [Function.update_self]
      exact iff_of_false (fun same => by cases same) fun both => both.1 rfl
    · rw [Function.update_of_ne apart]
      exact (and_iff_right apart).symm
  have quiet : Quiet ghost (ghost.setStage number .released) producer
      (producer.setRequisitioned block false) := by
    refine ⟨rfl, rfl, rfl, fun entry found here => ⟨found.value, here, id⟩, rfl, rfl, rfl, rfl, ?_,
      fun _ _ => rfl⟩
    rw [used]
    exact fun _ _ stands => stands
  have indexed : Indexed (producer.setRequisitioned block false).index ghost.slots
      (ghost.setStage number .released).used := by
    rw [used]
    exact sound.indexed
  refine ⟨ghost.setStage number .released, ⟨indexed, ?_, ?_, ?_, ?_⟩, ⟨?_, ?_, ?_⟩,
    fun other apart point mine => ?_⟩
  · rw [values_quiet rfl rfl]
    refine ⟨fun other => ?_, fun index emptied => ?_, fun other second opened => ?_,
      fun index second there => ?_, fun second free offset below => ?_,
      fun first other second there too => ?_, fun other second new there => ?_, fun second => ?_⟩
    · rcases eq_or_ne other number with rfl | apart
      · have before := stored.absent other
        rw [releasing] at before
        rw [setStage_self]
        exact iff_of_false (fun same => by cases same) fun beyond => absurd (before.mpr beyond) (fun same => by cases same)
      · rw [setStage_of_ne apart]
        exact stored.absent other
    · rcases eq_or_ne (index / 32) number with rfl | apart
      · exact stored.emptied index (by rw [releasing]; rfl)
      · rw [setStage_of_ne apart] at emptied
        exact stored.emptied index emptied
    · rcases eq_or_ne other number with rfl | apart
      · rw [setStage_self] at opened
        cases opened
      · rw [setStage_of_ne apart] at opened
        exact stored.opened other second opened
    · exact stored.contents index second ((held _ second).mp there).2
    · rcases eq_or_ne second block with rfl | apart
      · have place : (32 * number + offset) / 32 = number := by omega
        have content := stored.contents (32 * number + offset) second (by rw [place]; exact mine)
        rw [show (32 * number + offset) % 32 = offset by omega] at content
        refine content.trans ?_
        rw [ImplicitProducer.content, stored.emptied _ (by rw [place]; exact emptied)]
        rfl
      · refine stored.vacant second (fun other there => ?_) offset below
        refine free other ((held other second).mpr ⟨fun same => apart ?_, there⟩)
        rw [same] at there
        exact Option.some.inj (there.symm.trans mine)
    · exact stored.distinct first other second ((held _ _).mp there).2 ((held _ _).mp too).2
    · exact stored.fresh other second new ((held other second).mp there).2
    · rcases eq_or_ne second block with rfl | apart
      · refine iff_of_false ?_ ?_
        · simp [setRequisitioned]
        · rintro (⟨other, there⟩ | new)
          · obtain ⟨apart, there⟩ := (held other second).mp there
            exact apart (stored.distinct _ _ second there mine)
          · exact stored.fresh number second new mine
      · have before := stored.requisitioned second
        simp only [setRequisitioned, Function.update_of_ne apart, before]
        refine or_congr_left (exists_congr fun other => ?_)
        rw [held]
        refine (and_iff_right_of_imp fun there same => apart ?_).symm
        rw [same] at there
        exact Option.some.inj (there.symm.trans mine)
  · rw [taken_ran]
    exact sound.owned.of_same rfl rfl
  · rw [values_quiet rfl rfl, moves_quiet rfl, claims_quiet rfl]
    exact sound.trailed.reassign rfl (fun _ => rfl) (fun _ => rfl) fun _ => rfl
  · rw [published_quiet rfl]
    refine ⟨sound.ended.tail_le, sound.ended.mapped_le, fun less => ?_⟩
    obtain ⟨second, there, tailBlock⟩ := sound.ended.tailBlock less
    exact ⟨second, (held _ _).mpr ⟨sound.tail_open ordered emptied, there⟩, tailBlock⟩
  · have owned : Owned (ghost.setStage number .released) (taken events) :=
      sound.owned.of_same rfl rfl
    have leaves : Leaves (ghost.setStage number .released) (producer.setRequisitioned block false)
        (ghost.claim consumer) walk endIndex number :=
      ⟨⟨leaves.follows.first, leaves.follows.stop, leaves.follows.ring⟩, leaves.endIndex,
        leaves.start, leaves.last⟩
    exact next_stands owned indexed leaves here ⟨rfl, rfl, rfl⟩ leaves.start
  · intro other second again
    rcases eq_or_ne other number with rfl | apart
    · rw [setStage_self] at again
      cases again
    · rw [setStage_of_ne apart] at again
      exact absurd (facts.clears other second again) (fun same => by cases same)
  · intro other second again
    rcases eq_or_ne other number with rfl | apart
    · rw [setStage_self] at again
      cases again
    · rw [setStage_of_ne apart] at again
      cases facts.releases other second again
      refine absurd (stored.distinct other number block ?_ mine) apart
      rw [Ghost.held, again]
      rfl
  · cases other with
    | producer => exact quiet.facts (published_quiet rfl) mine
    | consumer name =>
        have different : name ≠ consumer := fun same => apart (congrArg _ same)
        refine (setStage_steady sound.owned stored quiet emptied (fun second => ?_)
          fun second => ?_).facts sound.indexed mine
        · rw [releasing]
          exact ⟨(fun same => by cases same), (fun same => by cases same)⟩
        · rw [releasing]
          exact ⟨fun same => different (Stage.releasing.inj same).1.symm, (fun same => by cases same)⟩

end DmLockFree.ConcurrentQueue.ImplicitProducer
