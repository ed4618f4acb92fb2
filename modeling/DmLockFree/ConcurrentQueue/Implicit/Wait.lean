import DmLockFree.ConcurrentQueue.Implicit.Safety

/-! Every call of an `ImplicitProducer` ends after a bounded number of its own steps. A
call of `requisition_block`, `add_block_to_free_list` or `new_block_index` is one step. -/

set_option autoImplicit false

namespace DmLockFree.ConcurrentQueue.ImplicitProducer

open Library Program Ticket

variable {Consumer T : Type} {maxSubqueueSize : UInt64} {events : List (Event Consumer T)}
  {producer after : ImplicitProducer T} {pc next : Pc T} {output : Output T}

/-- How many elements are asked for. -/
def Dequeue.most : Dequeue → Nat
  | .single => 1
  | .bulk max => max.toNat

/-- At least as many steps as the running call still takes. -/
def Pc.rank : Pc T → Nat
  | .enqLoadTail _ => 13
  | .enqLoadHead .. => 12
  | .enqLoadKey .. => 11
  | .enqLoadValue .. => 10
  | .enqNewIndex .. => 9
  | .enqAssertKey .. => 8
  | .enqStoreKey .. => 7
  | .enqStoreIndexTail .. => 6
  | .enqRequisition .. => 5
  | .enqResetEmpty .. => 4
  | .enqStoreValue .. => 3
  | .enqRewind .. | .enqConstruct .. => 2
  | .enqClearValue .. | .enqStoreTail .. => 1
  | .deqLoadTail kind => 6 * kind.most + 14
  | .deqLoadOvercommit kind _ => 6 * kind.most + 13
  | .deqLoadOptimistic kind _ _ => 6 * kind.most + 12
  | .deqReserve _ _ desiredCount => 6 * desiredCount.toNat + 11
  | .deqCheck _ _ desiredCount _ => 6 * desiredCount.toNat + 10
  | .deqGiveUp _ => 1
  | .deqGiveBack actualCount _ => 6 * actualCount.toNat + 9
  | .deqClaim actualCount => 6 * actualCount.toNat + 8
  | .findLoadIndex first stop => 6 * (stop - first).toNat + 7
  | .findLoadTail first stop _ => 6 * (stop - first).toNat + 6
  | .findLoadKey first stop _ _ => 6 * (stop - first).toNat + 5
  | .findAssertKey walk => 6 * (walk.stop - walk.first).toNat + 4
  | .findAssertValue walk => 6 * (walk.stop - walk.first).toNat + 3
  | .deqLoadBlock walk index => 6 * (walk.stop - index).toNat + 2
  | .deqMove walk _ index _ _ _ => 6 * (walk.stop - index).toNat + 1
  | .deqSetEmpty walk _ endIndex _ _ => 6 * (walk.stop - endIndex).toNat + 5
  | .deqClearValue walk endIndex _ _ => 6 * (walk.stop - endIndex).toNat + 4
  | .deqRelease walk endIndex _ => 6 * (walk.stop - endIndex).toNat + 3
  | .idle | .aborted => 0

def Call.bound : Call T → Nat
  | .enqueue _ => 13
  | .dequeue kind => 6 * kind.most + 14

theorem Walk.next_rank (walk : Walk) (header : BlockIndexHeader) (endIndex : UInt64) :
    (walk.next header endIndex : Pc T × _).1.rank ≤ 6 * (walk.stop - endIndex).toNat + 2 ∧
      ((walk.next header endIndex : Pc T × _).2 = none →
        (walk.next header endIndex : Pc T × _).1 ≠ .idle) := by
  unfold Walk.next
  split
  · exact ⟨Nat.zero_le _, nofun⟩
  · exact ⟨Nat.le_refl _, nofun⟩

theorem Enqueues.rank (taken : Enqueues maxSubqueueSize producer pc after next output) :
    next.rank < pc.rank := by
  cases taken <;> simp [Pc.rank]

theorem Enqueues.answers (taken : Enqueues maxSubqueueSize producer pc after next output)
    (unanswered : output.returned = none) : next ≠ .idle := by
  cases taken with
  | full | noIndex | newIndexFails | clearValue | storeTail => cases unanswered
  | _ => intro same; cases same

theorem Dequeues.answers (taken : Dequeues producer pc after next output)
    (unanswered : output.returned = none) : next ≠ .idle := by
  cases taken with
  | setEmpty walk start endIndex entry block here fits notAll =>
      exact (walk.next_rank _ endIndex).2 unanswered
  | release walk endIndex block here => exact (walk.next_rank _ endIndex).2 unanswered
  | seemsEmpty | giveUp => cases unanswered
  | _ => intro same; cases same

theorem Dequeue.desired_le {kind : Dequeue} {tail effective desiredCount : UInt64}
    (seems : kind.desired tail effective = some desiredCount) : desiredCount.toNat ≤ kind.most := by
  cases kind with
  | single =>
      simp only [Dequeue.desired] at seems
      split at seems
      · cases seems
        exact Nat.le_refl 1
      · cases seems
  | bulk max =>
      simp only [Dequeue.desired] at seems
      split at seems
      case isFalse _ => cases seems
      case isTrue _ =>
          cases seems
          split
          case isTrue less => exact Nat.le_of_lt (UInt64.lt_iff_toNat_lt.mp less)
          case isFalse _ => exact Nat.le_refl _

theorem Dequeue.actual_le_desired {kind : Dequeue}
    {tail effective desiredCount actualCount : UInt64} (positive : 0 < desiredCount.toNat)
    (seems : kind.actual tail effective desiredCount = some actualCount) :
    actualCount.toNat ≤ desiredCount.toNat := by
  cases kind with
  | single =>
      simp only [Dequeue.actual] at seems
      split at seems
      · cases seems
        exact positive
      · cases seems
  | bulk max =>
      simp only [Dequeue.actual] at seems
      split at seems
      case isFalse _ => cases seems
      case isTrue _ =>
          cases seems
          split
          case isTrue _ => exact Nat.le_refl _
          case isFalse whole => exact UInt64.le_iff_toNat_le.mp (UInt64.not_lt.mp whole)

theorem sub_words {first second : Nat} (ordered : first ≤ second)
    (close : second < first + 2 ^ 64) :
    (UInt64.ofNat second - UInt64.ofNat first).toNat = second - first := by
  rw [UInt64.toNat_sub, UInt64.toNat_ofNat', UInt64.toNat_ofNat']
  omega

section Rank

variable {ghost : Ghost Consumer T} {consumer : Consumer} (sound : Sound events ghost producer)

include sound in
/-- With every move less is left of the claim. -/
theorem rest_succ {walk : Walk} {start index endIndex : UInt64} {entry block : Nat}
    (facts : ConsumerFacts consumer ghost producer (.deqMove walk start index endIndex entry block)) :
    (walk.stop - (index + 1)).toNat + 1 = (walk.stop - index).toNat := by
  obtain ⟨works, more⟩ := facts.stands
  have within : (ghost.claim consumer).index < (ghost.claim consumer).stop :=
    Nat.lt_of_lt_of_le more (Nat.min_le_left ..)
  have close := sound.owned.close consumer
  have first := sound.owned.first_le consumer
  have start := sound.owned.start_le consumer
  have succ : index + 1 = .ofNat ((ghost.claim consumer).index + 1) := by
    rw [works.index, UInt64.ofNat_add]
    rfl
  rw [succ, works.index, works.follows.stop, sub_words (by omega) (by omega),
    sub_words (by omega) (by omega)]
  omega

include sound in
theorem Dequeues.rank (facts : ConsumerFacts consumer ghost producer pc)
    (positive : ∀ kind overcommit desiredCount myDequeueCount,
      pc = .deqCheck kind overcommit desiredCount myDequeueCount → 0 < desiredCount.toNat)
    (taken : Dequeues producer pc after next output) :
    next = .aborted ∨ next.rank < pc.rank := by
  cases taken with
  | loadOptimistic kind tail overcommit seems =>
      have most := Dequeue.desired_le seems
      refine .inr ?_
      simp only [Pc.rank]
      omega
  | checkShort kind overcommit desiredCount myDequeueCount seems short
  | check kind overcommit desiredCount myDequeueCount seems short =>
      have most := Dequeue.actual_le_desired (positive _ _ _ _ rfl) seems
      refine .inr ?_
      simp only [Pc.rank]
      omega
  | claim actualCount =>
      refine .inr ?_
      simp only [Pc.rank]
      rw [UInt64.add_comm, UInt64.add_sub_cancel]
      omega
  | loadBlockEmpty walk index reads value nothing =>
      exact absurd nothing (not_loadBlockEmpty sound facts)
  | moveLast walk start index entry block present
  | move walk start index endIndex entry block present more =>
      have less := rest_succ sound facts
      refine .inr ?_
      simp only [Pc.rank]
      omega
  | setEmpty walk start endIndex entry block here fits notAll =>
      refine .inr (Nat.lt_of_le_of_lt (walk.next_rank _ endIndex).1 ?_)
      simp only [Pc.rank]
      omega
  | release walk endIndex block here =>
      refine .inr (Nat.lt_of_le_of_lt (walk.next_rank _ endIndex).1 ?_)
      simp only [Pc.rank]
      omega
  | _ =>
      first
      | exact .inl rfl
      | exact .inr (by simp only [Pc.rank]; omega)

end Rank

section Run

variable [DecidableEq Consumer] {allocated : Bool} {state : State Consumer T}
  {thread : Thread Consumer} {request : Call T}

omit [DecidableEq Consumer] in
theorem enter_idle (entered : enter thread pc request = some next) :
    pc = .idle ∧ next.rank = request.bound ∧ next ≠ .idle := by
  unfold enter at entered
  split at entered
  · cases entered
    exact ⟨rfl, rfl, fun same => by cases same⟩
  · cases entered
    exact ⟨rfl, rfl, fun same => by cases same⟩
  · split at entered
    · cases entered
    · cases entered
      exact ⟨rfl, rfl, fun same => by cases same⟩
  · cases entered

end Run

end DmLockFree.ConcurrentQueue.ImplicitProducer
