import DmLockFree.ConcurrentQueue.Implicit.Reckoning

/-! How far the tail may be ahead of the head: there is room for a whole block, or
the producer takes no new one. -/

set_option autoImplicit false

namespace DmLockFree.ConcurrentQueue.ImplicitProducer

open Library Program

variable {Consumer T : Type} [DecidableEq Consumer] {maxSubqueueSize : UInt64} {limit : Nat}
  {events : List (Event Consumer T)} {producer after : ImplicitProducer T} {pc next : Pc T}
  {output : Output T} {allocated : Bool} {state : State Consumer T}

/-- The check for a full queue leaves room for a block within the limit. -/
def Limits (maxSubqueueSize : UInt64) (limit : Nat) : Prop :=
  ∀ tail head : Nat, head ≤ tail → tail ≤ head + limit →
    full maxSubqueueSize (.ofNat tail) (.ofNat head) = false → tail + 32 ≤ head + limit

/-- The indices can always be compared. -/
theorem limits_word (maxSubqueueSize : UInt64) : Limits maxSubqueueSize (2 ^ 63 - 1) := by
  intro tail head ordered close room
  simp only [full, Bool.or_eq_false_iff, Bool.not_eq_false'] at room
  have less := (circularLessThan_eq _ _).mp room.1
  rw [UInt64.toNat_sub, UInt64.toNat_add, UInt64.toNat_ofNat', UInt64.toNat_ofNat'] at less
  change 2 ^ 63 < (2 ^ 64 - (tail % 2 ^ 64 + 32) % 2 ^ 64 + head % 2 ^ 64) % 2 ^ 64 at less
  omega

/-- The size limit, which is a multiple of the block size. -/
theorem limits_size (limited : maxSubqueueSize ≠ 0xFFFFFFFFFFFFFFFF)
    (whole : maxSubqueueSize.toNat % 32 = 0) : Limits maxSubqueueSize maxSubqueueSize.toNat := by
  intro tail head ordered close room
  simp only [full, Bool.or_eq_false_iff, Bool.and_eq_false_iff, bne_eq_false_iff_eq] at room
  rcases room.2 with unlimited | ⟨some, few⟩
  · exact absurd unlimited limited
  · have least : maxSubqueueSize.toNat ≠ 0 := by
      intro zero
      rw [UInt64.toNat_inj.mp (zero.trans UInt64.toNat_zero.symm)] at some
      cases some
    have small := maxSubqueueSize.toNat_lt
    have fits := UInt64.le_iff_toNat_le.mp (UInt64.not_lt.mp (of_decide_eq_false few))
    rw [UInt64.toNat_sub, UInt64.toNat_sub, UInt64.toNat_ofNat', UInt64.toNat_ofNat'] at fits
    change (2 ^ 64 - head % 2 ^ 64 + tail % 2 ^ 64) % 2 ^ 64 ≤
      (2 ^ 64 - 32 + maxSubqueueSize.toNat) % 2 ^ 64 at fits
    omega

/-- The producer has found room for the block of the tail. -/
def Pc.roomy : Pc T → Bool
  | .enqLoadKey .. | .enqLoadValue .. | .enqNewIndex .. | .enqAssertKey .. | .enqStoreKey ..
  | .enqStoreIndexTail .. | .enqRequisition .. | .enqResetEmpty .. | .enqStoreValue ..
  | .enqConstruct .. | .enqStoreTail .. => true
  | _ => false

/-- The blocks in use are within the limit. -/
def Roomy (limit : Nat) (events : List (Event Consumer T)) (_ : Unit)
    (_ : ImplicitProducer T) : Prop :=
  32 * (((published events).length + 31) / 32) ≤ taken events + limit

def Spacious (limit : Nat) (thread : Thread Consumer) (events : List (Event Consumer T))
    (_ : Unit) (_ : ImplicitProducer T) (pc : Pc T) : Prop :=
  thread = .producer → pc.roomy = true →
    32 * ((published events).length / 32) + 32 ≤ taken events + limit

omit [DecidableEq Consumer] in
theorem Spacious.grows {thread : Thread Consumer} {event : Event Consumer T}
    (spacious : Spacious limit thread events () producer pc)
    (same : thread = .producer → published (events ++ [event]) = published events)
    (more : taken events ≤ taken (events ++ [event])) :
    Spacious limit thread (events ++ [event]) () after pc := by
  intro mine roomy
  rw [same mine]
  exact Nat.le_trans (spacious mine roomy) (Nat.add_le_add_right more limit)

/-- The producer goes on only with room for its block. -/
theorem Enqueues.room {tail head : Nat} (limits : Limits maxSubqueueSize limit)
    (taken : Enqueues maxSubqueueSize producer pc after next output)
    (shown : producer.tailIndex = .ofNat tail) (first : producer.headIndex = .ofNat head)
    (ordered : head ≤ tail) (current : ∀ word, pc.tail = some word → word = .ofNat tail)
    (roomy : 32 * ((tail + 31) / 32) ≤ head + limit)
    (spacious : pc.roomy = true → 32 * (tail / 32) + 32 ≤ head + limit) :
    next.roomy = true → 32 * (tail / 32) + 32 ≤ head + limit := by
  intro goesOn
  cases taken with
  | loadTail request inside =>
      rw [shown, Ne, blockOffset_eq_zero] at inside
      omega
  | loadHead request currentTailIndex room =>
      rw [current currentTailIndex rfl, first] at room
      have enough := limits tail head ordered (by omega) room
      omega
  | loadTailFirst | headAborts | full | noIndex | keyAborts | valueAborts | newIndexFails
  | assertKeyAborts | requisitionFails | rewindAborts | rewind | clearValue | constructAborts
  | storeTail => cases goesOn
  | _ => exact spacious rfl

theorem run_taken_le
    (run : ((program Consumer T maxSubqueueSize).machine (construct T allocated)).Run events state)
    (timely : Timely events) : taken events ≤ (published events).length := by
  obtain ⟨tickets, counted, _⟩ := run_counted run timely
  exact counted.covered.taken_le

omit [DecidableEq Consumer] in
theorem dequeues_published (thread : Thread Consumer)
    (taken : Dequeues producer pc after next output) :
    published (events ++ [.ran thread output]) = published events := by
  apply published_quiet
  cases taken <;> rfl

omit [DecidableEq Consumer] in
theorem taken_le_ran (thread : Thread Consumer) :
    taken events ≤ taken (events ++ [.ran thread output]) := by
  rw [taken_ran]
  exact Nat.le_add_right ..

omit [DecidableEq Consumer] in
theorem call_room {thread : Thread Consumer} {request : Call T}
    (roomy : Roomy limit events () producer)
    (entered : enter thread pc request = some next) :
    Preserves (Roomy limit) (Spacious limit) thread events (.called thread request) () () producer
      producer next := by
  refine ⟨?_, ?_, fun other apart point spacious => ?_⟩
  · unfold Roomy
    rw [published_called, taken_called]
    exact roomy
  · intro mine goesOn
    subst mine
    unfold enter at entered
    split at entered
    · cases entered
      cases goesOn
    · contradiction
    · contradiction
    · cases entered
  · exact spacious.grows (fun _ => published_called ..) (by rw [taken_called])

theorem run_keeps_room (limits : Limits maxSubqueueSize limit)
    (run : ((program Consumer T maxSubqueueSize).machine (construct T allocated)).Run events state)
    (timely : Timely events) {thread : Thread Consumer}
    (roomy : Roomy limit events () state.shared)
    (spacious : Spacious limit thread events () state.shared (state.pc thread))
    (taken : advance maxSubqueueSize state.shared (state.pc thread) =
      some (after, next, output)) :
    Preserves (Roomy limit) (Spacious limit) thread events (.ran thread output) () () state.shared
      after next := by
  obtain ⟨tickets, counted, standing⟩ := run_counted run timely
  have ordered := counted.covered.taken_le
  have more : ImplicitProducer.taken events ≤
      ImplicitProducer.taken (events ++ [.ran thread output]) := taken_le_ran thread
  rcases run_turn run taken with ⟨rfl, enqueues⟩ | ⟨consumer, rfl, dequeues⟩
  · have room := enqueues.room limits counted.tail counted.head ordered (standing .producer) roomy
      (spacious rfl)
    rcases enqueues.effect with ⟨silent, _, _⟩ | ⟨request, current, stands, rfl, rfl, stores⟩
    · have same : published (events ++ [.ran (.producer : Thread Consumer) output]) =
          published events := published_quiet silent.published
      refine ⟨?_, fun _ goesOn => ?_, fun other apart point spacious => ?_⟩
      · unfold Roomy
        rw [same]
        exact Nat.le_trans roomy (Nat.add_le_add_right more limit)
      · rw [same]
        exact Nat.le_trans (room goesOn) (Nat.add_le_add_right more limit)
      · exact spacious.grows (fun _ => same) more
    · have space := spacious rfl (by rw [stands]; rfl)
      refine ⟨?_, fun _ goesOn => (by cases goesOn), fun other apart point spacious => ?_⟩
      · unfold Roomy
        rw [published_ran, stores]
        change 32 * (((published events ++ [request.value]).length + 31) / 32) ≤ _
        rw [List.length_append, List.length_singleton]
        omega
      · exact spacious.grows (fun same => absurd same apart) more
  · have same : published (events ++ [.ran (.consumer consumer) output]) = published events :=
      dequeues_published (.consumer consumer) dequeues
    refine ⟨?_, ?_, fun other apart point spacious => ?_⟩
    · unfold Roomy
      rw [same]
      exact Nat.le_trans roomy (Nat.add_le_add_right more limit)
    · intro mine
      cases mine
    · exact spacious.grows (fun _ => same) more

theorem run_room (limits : Limits maxSubqueueSize limit)
    (run : ((program Consumer T maxSubqueueSize).machine (construct T allocated)).Run events state)
    (timely : Timely events) :
    32 * (((published events).length + 31) / 32) ≤ taken events + limit ∧
      ∀ thread, Spacious limit thread events () state.shared (state.pc thread) := by
  have started : Roomy limit ([] : List (Event Consumer T)) () (construct T allocated) := by
    simp [Roomy, published]
  obtain ⟨_, roomy, spacious⟩ := along_invariant (Roomy limit) (Spacious limit) started
    (fun _ _ roomy => by cases roomy)
    (fun _ _ roomy _ entered => ⟨(), call_room roomy entered⟩)
    (fun run timely roomy spacious taken =>
      ⟨(), run_keeps_room limits run timely.init roomy spacious taken⟩) run timely
  exact ⟨roomy, spacious⟩

end DmLockFree.ConcurrentQueue.ImplicitProducer
