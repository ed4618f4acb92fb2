import DmLockFree.ConcurrentQueue.FreeList.Invariant

/-! What every step does to the nodes of a `FreeList`. -/

set_option autoImplicit false

namespace DmLockFree.ConcurrentQueue.FreeList

open Library Program

variable {Thread Node : Type}

/-- The node that `try_get` hands to its caller. -/
def Output.taken : Output Node → Option Node
  | ⟨_, some (.got node)⟩ => node
  | _ => none

@[simp] theorem taken_none (access : Access Node) : Output.taken ⟨access, none⟩ = none := rfl

@[simp] theorem taken_loop (access : Access Node) (head : Option Node) :
    Output.taken ⟨access, (loop head).2⟩ = none := by cases head <;> rfl

@[simp] theorem taken_continue (access : Access Node) (resume : Resume Node) :
    Output.taken ⟨access, resume.continue.2⟩ = none := by
  cases resume with
  | adding => rfl
  | getting head => exact taken_loop access head

/-- The object stays sound, the thread's own point is justified, the other threads
keep their facts, and only a node that is handed out changes hands. -/
structure Moves (thread : Thread) (ghost later : Ghost Thread Node) (list after : FreeList Node)
    (next : Pc Node) (taken : Option Node) : Prop where
  sound : Sound later after
  own : Facts thread later after next
  others : ∀ other, other ≠ thread → ∀ pc, Facts other ghost list pc → Facts other later after pc
  held : ∀ node, later.place node = .held ↔ ghost.place node = .held ∨ taken = some node

section Turns

variable {ghost : Ghost Thread Node} {list after : FreeList Node} {thread : Thread} {node : Node}
  {place : Place Thread} {users : Finset Thread} {pc next : Pc Node} {refs : UInt32}
  {taken : Option Node}

/-- Nobody but the thread is at work. -/
def Place.Mine (place : Place Thread) (thread : Thread) : Prop :=
  ∀ other phase, place = .busy other phase → other = thread

theorem Facts.place_eq (facts : Facts thread ghost list pc) {phase : Phase}
    (works : pc.works = some (node, phase)) : ghost.place node = .busy thread phase :=
  (facts.works node phase).mpr works

theorem Facts.mine (facts : Facts thread ghost list pc) {phase : Phase}
    (works : pc.works = some (node, phase)) : (ghost.place node).Mine thread := by
  rw [facts.place_eq works]
  intro other second same
  cases same
  rfl

theorem Facts.unused (facts : Facts thread ghost list pc) (uses : pc.uses = none) :
    thread ∉ ghost.users node := by
  rw [facts.uses, uses]
  exact Option.some_ne_none node ∘ Eq.symm

section Change

variable [DecidableEq Node]

theorem Turn.Users.stay (facts : Facts thread ghost list pc) (uses : next.uses = pc.uses) :
    Turn.Users thread node (ghost.users node) (ghost.users node) pc next := by
  refine ⟨fun _ _ => Iff.rfl, fun other => ?_⟩
  rw [uses]
  split
  case isTrue same => rw [same, facts.uses]
  case isFalse => rfl

theorem Turn.Users.enter [DecidableEq Thread] {before : Finset Thread} (none : pc.uses = none)
    (uses : next.uses = some node) :
    Turn.Users thread node before (insert thread before) pc next := by
  refine ⟨fun other apart => by simp [apart], fun other => ?_⟩
  rw [uses, none]
  split
  case isTrue same => simp [same]
  case isFalse apart => simp [Ne.symm apart]

theorem Turn.Users.leave [DecidableEq Thread] {before : Finset Thread} (uses : pc.uses = some node)
    (none : next.uses = none) :
    Turn.Users thread node before (before.erase thread) pc next := by
  refine ⟨fun other apart => by simp [apart], fun other => ?_⟩
  rw [uses, none]
  split
  case isTrue same => simp
  case isFalse apart => simp [Ne.symm apart]

theorem Turn.Work.stay (facts : Facts thread ghost list pc) (works : next.works = pc.works) :
    Turn.Work thread node (ghost.place node) (ghost.place node) pc next := by
  refine ⟨fun _ _ _ => Iff.rfl, fun other phase => ?_⟩
  rw [works]
  split
  case isTrue same => rw [same, facts.works]
  case isFalse => rfl

/-- The thread works on at most one node, and goes on with it. -/
theorem Turn.Work.phase {before : Place Thread} (phase : Phase) (mine : before.Mine thread)
    (only : ∀ other phase, pc.works = some (other, phase) → other = node)
    (works : next.works = some (node, phase)) :
    Turn.Work thread node before (.busy thread phase) pc next := by
  refine ⟨fun other second apart => ?_, fun other second => ?_⟩
  · constructor
    · intro same
      cases same
      exact absurd rfl apart
    · intro same
      exact absurd (mine other second same) apart
  · rw [works]
    split
    case isTrue same => simp [same]
    case isFalse apart =>
        constructor
        · intro same
          cases same
          exact absurd rfl apart
        · intro same
          exact absurd (only other second same) apart

theorem Turn.Work.leave {before : Place Thread} (place : Place Thread) (mine : before.Mine thread)
    (only : ∀ other phase, pc.works = some (other, phase) → other = node)
    (free : ∀ other phase, place ≠ .busy other phase) (works : next.works = none) :
    Turn.Work thread node before place pc next := by
  refine ⟨fun other second apart => ?_, fun other second => ?_⟩
  · exact ⟨fun same => absurd same (free other second),
      fun same => absurd (mine other second same) apart⟩
  · rw [works]
    split
    case isTrue same => simp [free]
    case isFalse apart =>
        constructor
        · intro same
          cases same
        · intro same
          exact absurd (only other second same) apart

end Change

theorem Moves.stay (sound : Sound ghost list) (facts : Facts thread ghost list pc)
    (uses : next.uses = pc.uses) (works : next.works = pc.works) (knows : next.Knows list) :
    Moves thread ghost ghost list list next none where
  sound := sound
  own := ⟨fun node => by rw [uses, facts.uses], fun node phase => by rw [works, facts.works], knows⟩
  others := fun _ _ _ same => same
  held := fun node => by simp

variable [DecidableEq Node]

theorem put_held (users : Finset Thread) (held : place = .held ↔ ghost.place node = .held ∨ taken = some node)
    (only : ∀ other, taken = some other → other = node) (other : Node) :
    (ghost.put node place users).place other = .held ↔
      ghost.place other = .held ∨ taken = some other := by
  by_cases same : other = node
  · subst same
    rw [put_place_self, held]
  · rw [put_place_of_ne same, or_iff_left fun mine => same (only other mine)]

/-- A step on the count of a node. -/
theorem Moves.put (sound : Sound ghost list) (facts : Facts thread ghost list pc)
    (turn : Turn thread ghost node place users pc next)
    (counted : Counted refs place.flagged (place.own + users.card))
    (adding : ∀ thread, place = .busy thread .adding → users = ∅)
    (pending : place = .pending → users ≠ ∅)
    (listed : place = .listed ↔ ghost.place node = .listed)
    (knows : next.Knows (list.setRefs node refs))
    (held : place = .held ↔ ghost.place node = .held ∨ taken = some node)
    (only : ∀ other, taken = some other → other = node) :
    Moves thread ghost (ghost.put node place users) list (list.setRefs node refs) next taken where
  sound := sound.put counted adding pending listed
  own := turn.own facts knows
  others := fun _ apart _ same => turn.others apart same (same.keeps fun _ _ => rfl)
  held := put_held users held only

/-- No node changes hands. -/
theorem Moves.keep (sound : Sound ghost list) (facts : Facts thread ghost list pc)
    (turn : Turn thread ghost node place users pc next)
    (counted : Counted refs place.flagged (place.own + users.card))
    (adding : ∀ thread, place = .busy thread .adding → users = ∅)
    (pending : place = .pending → users ≠ ∅)
    (listed : place = .listed ↔ ghost.place node = .listed)
    (knows : next.Knows (list.setRefs node refs))
    (held : place = .held ↔ ghost.place node = .held) :
    Moves thread ghost (ghost.put node place users) list (list.setRefs node refs) next none :=
  .put sound facts turn counted adding pending listed knows
    (held.trans (or_iff_left (Option.some_ne_none node ∘ Eq.symm)).symm)
    fun other same => absurd same (Option.some_ne_none other ∘ Eq.symm)

end Turns

section Steps

variable [DecidableEq Node] {ghost : Ghost Thread Node}
  {list after : FreeList Node} {thread : Thread} {node : Node} {pc next : Pc Node}
  {head : Option Node} {resume : Resume Node} {refs : UInt32}

omit [DecidableEq Node] in
theorem Sound.busy (sound : Sound ghost list) {phase : Phase}
    (place : ghost.place node = .busy thread phase) : Counted (list.freeListRefs node)
      (Place.busy thread phase).flagged
      ((Place.busy thread phase).own + (ghost.users node).card) := by
  rw [← place]
  exact sound.counted node

/-- A call of `add` on a node in the hands of its caller. -/
theorem Moves.call (sound : Sound ghost list) (facts : Facts thread ghost list .idle)
    (held : ghost.place node = .held) :
    Sound (ghost.put node (.busy thread .given) (ghost.users node)) list ∧
      Facts thread (ghost.put node (.busy thread .given) (ghost.users node)) list
        (.addRefs node) ∧
      ∀ other, other ≠ thread → ∀ pc, Facts other ghost list pc →
        Facts other (ghost.put node (.busy thread .given) (ghost.users node)) list pc := by
  have counted := sound.counted node
  rw [held] at counted
  have mine : (ghost.place node).Mine thread := by
    rw [held]
    intro other phase same
    cases same
  have turn : Turn thread ghost node (.busy thread .given) (ghost.users node) .idle
      (.addRefs node) :=
    ⟨.stay facts rfl, .phase .given mine (fun _ _ same => by cases same) rfl⟩
  have kept : Sound (ghost.put node (.busy thread .given) (ghost.users node))
      (list.setRefs node (list.freeListRefs node)) := by
    refine sound.put counted ?_ ?_ ?_
    · intro other same
      cases same
    · intro same
      cases same
    · simp [held]
  rw [setRefs_self] at kept
  exact ⟨kept, turn.own facts trivial,
    fun _ apart _ same => turn.others apart same (same.keeps fun _ _ => rfl)⟩

/-- The thread goes on with its node. -/
theorem Moves.phase (sound : Sound ghost list) (facts : Facts thread ghost list pc)
    {first second : Phase} (before : pc.works = some (node, first))
    (works : next.works = some (node, second)) (uses : next.uses = pc.uses)
    (counted : Counted refs (Place.busy thread second).flagged
      ((Place.busy thread second).own + (ghost.users node).card))
    (alone : second = .adding → ghost.users node = ∅)
    (knows : next.Knows (list.setRefs node refs)) :
    ∃ later, Moves thread ghost later list (list.setRefs node refs) next none := by
  have place := facts.place_eq before
  refine ⟨_, .keep sound facts ⟨.stay facts uses, .phase second (facts.mine before) ?_ works⟩ counted
    ?_ ?_ ?_ knows ?_⟩
  · intro other phase same
    rw [before] at same
    cases same
    rfl
  · intro other same
    cases same
    exact alone rfl
  · intro same
    cases same
  · simp [place]
  · simp [place]

/-- The thread leaves its node to those who still refer to it. -/
theorem Moves.leave (sound : Sound ghost list) (facts : Facts thread ghost list pc)
    {phase : Phase} (before : pc.works = some (node, phase)) (works : next.works = none)
    (uses : next.uses = pc.uses) (counted : Counted refs true (ghost.users node).card)
    (others : ghost.users node ≠ ∅) (knows : next.Knows (list.setRefs node refs)) :
    ∃ later, Moves thread ghost later list (list.setRefs node refs) next none := by
  have place := facts.place_eq before
  refine ⟨_, .keep sound facts
    ⟨.stay facts uses, .leave .pending (facts.mine before) ?_ ?_ works⟩ ?_
    ?_ (fun _ => others) ?_ knows ?_⟩
  · intro other second same
    rw [before] at same
    cases same
    rfl
  · intro other second same
    cases same
  · simpa [Place.flagged, Place.own] using counted
  · intro other same
    cases same
  · simp [place]
  · simp [place]

theorem Moves.addLinks (sound : Sound ghost list) (facts : Facts thread ghost list (.addRefs node))
    (last : list.freeListRefs node = 0) :
    ∃ later, Moves thread ghost later list
      (list.setRefs node (list.freeListRefs node + SHOULD_BE_ON_FREELIST))
      (.knowingLoadHead node .adding) none := by
  have counted := sound.busy (facts.place_eq rfl)
  refine Moves.phase sound facts rfl rfl rfl counted.raise (fun _ => ?_) trivial
  obtain ⟨_, none⟩ := (counted.eq_iff .zero).mp last
  simpa [Place.own] using none

theorem Moves.addLeaves (sound : Sound ghost list)
    (facts : Facts thread ghost list (.addRefs node)) (used : list.freeListRefs node ≠ 0) :
    ∃ later, Moves thread ghost later list
      (list.setRefs node (list.freeListRefs node + SHOULD_BE_ON_FREELIST)) .idle none := by
  have counted := sound.busy (facts.place_eq rfl)
  refine Moves.leave sound facts rfl rfl rfl ?_ ?_ trivial
  · change Counted _ false (0 + (ghost.users node).card) at counted
    rw [Nat.zero_add] at counted
    exact counted.raise
  · intro none
    refine used ((counted.eq_iff .zero).mpr ⟨rfl, ?_⟩)
    simp [Place.own, none]

theorem Sound.setNext (sound : Sound ghost list) (unlisted : node ∉ ghost.stack) :
    Sound ghost (list.setNext node head) :=
  ⟨sound.counted, sound.adding, sound.pending, sound.chained.update unlisted head, sound.nodup,
    sound.listed⟩

theorem Moves.knowingStoreNext (sound : Sound ghost list)
    (facts : Facts thread ghost list (.knowingStoreNext node head resume)) :
    ∃ later, Moves thread ghost later list (list.setNext node head)
      (.knowingStoreRefs node head resume) none := by
  have place := facts.place_eq rfl
  have unlisted : node ∉ ghost.stack := by
    rw [← sound.listed, place]
    exact nofun
  refine ⟨ghost, sound.setNext unlisted, ⟨facts.uses, facts.works, ?_⟩, ?_, by simp⟩
  · exact Function.update_self ..
  · intro other apart pc same
    refine ⟨same.uses, same.works, same.keeps fun third mine => Function.update_of_ne ?_ ..⟩
    intro equal
    subst equal
    rcases mine with used | ⟨phase, busy⟩
    · rw [sound.adding third thread place] at used
      exact Finset.notMem_empty other used
    · rw [place] at busy
      cases busy
      exact apart rfl

theorem Moves.knowingStoreRefs (sound : Sound ghost list)
    (facts : Facts thread ghost list (.knowingStoreRefs node head resume)) :
    ∃ later, Moves thread ghost later list (list.setRefs node 1)
      (.knowingExchange node head resume) none := by
  have alone := sound.adding node thread (facts.place_eq rfl)
  refine Moves.phase sound facts rfl rfl rfl ?_ (fun same => by cases same)
    facts.knows
  rw [alone]
  exact .one

theorem Moves.knowingRetries (sound : Sound ghost list)
    (facts : Facts thread ghost list (.knowingGiveBack node head resume))
    (last : list.freeListRefs node = 1) :
    ∃ later, Moves thread ghost later list
      (list.setRefs node (list.freeListRefs node + (SHOULD_BE_ON_FREELIST - 1)))
      (.knowingStoreNext node head resume) none := by
  have counted := sound.busy (facts.place_eq rfl)
  obtain ⟨_, none⟩ := (counted.eq_iff .one).mp last
  have alone : ghost.users node = ∅ := by simpa [Place.own] using none
  refine Moves.phase sound facts rfl rfl rfl ?_ (fun _ => alone) trivial
  rw [alone] at counted ⊢
  exact counted.trade

theorem Moves.knowingLeaves (sound : Sound ghost list)
    (facts : Facts thread ghost list (.knowingGiveBack node head resume))
    (used : list.freeListRefs node ≠ 1) :
    ∃ later, Moves thread ghost later list
      (list.setRefs node (list.freeListRefs node + (SHOULD_BE_ON_FREELIST - 1)))
      resume.continue.1 none := by
  have counted := sound.busy (facts.place_eq rfl)
  refine Moves.leave sound facts rfl (continue_works resume) (continue_uses resume) ?_ ?_ (by simp)
  · rw [Place.own, Nat.add_comm] at counted
    exact counted.trade
  · intro none
    refine used ((counted.eq_iff .one).mpr ⟨rfl, ?_⟩)
    simp [Place.own, none]

/-- The list of a thread that exchanges the head, with the node on it or not. -/
theorem Sound.setHead (sound : Sound ghost list) {place : Place Thread} {stack : List Node}
    (counted : Counted (list.freeListRefs node) place.flagged
      (place.own + (ghost.users node).card))
    (adding : ∀ thread, place ≠ .busy thread .adding) (pending : place ≠ .pending)
    (chained : Chained list.freeListNext head stack) (nodup : stack.Nodup)
    (listed : place = .listed ↔ node ∈ stack)
    (same : ∀ other, other ≠ node → (other ∈ stack ↔ other ∈ ghost.stack)) :
    Sound ⟨stack, Function.update ghost.place node place, ghost.users⟩ (list.setHead head) := by
  refine ⟨fun other => ?_, fun other thread => ?_, fun other => ?_, chained, nodup, fun other => ?_⟩
  all_goals by_cases equal : other = node
  · subst equal
    simpa only [FreeList.setHead, Function.update_self] using counted
  · simpa only [FreeList.setHead, Function.update_of_ne equal] using sound.counted other
  · subst equal
    simp only [Function.update_self]
    exact fun busy => absurd busy (adding thread)
  · simpa only [Function.update_of_ne equal] using sound.adding other thread
  · subst equal
    simp only [Function.update_self]
    exact fun waits => absurd waits pending
  · simpa only [Function.update_of_ne equal] using sound.pending other
  · subst equal
    simpa only [Function.update_self] using listed
  · simp only [Function.update_of_ne equal, same other equal]
    exact sound.listed other

/-- The facts of a thread whose step exchanges the head. -/
theorem Turn.exchange {place : Place Thread} {stack : List Node} {taken : Option Node}
    (work : Turn.Work thread node (ghost.place node) place pc next)
    (facts : Facts thread ghost list pc) (uses : next.uses = pc.uses)
    (sound : Sound ⟨stack, Function.update ghost.place node place, ghost.users⟩
      (list.setHead head))
    (knows : next.Knows (list.setHead head))
    (held : place = .held ↔ ghost.place node = .held) (none : taken = none) :
    Moves thread ghost ⟨stack, Function.update ghost.place node place, ghost.users⟩ list
      (list.setHead head) next taken := by
  have turn : Turn thread ghost node place (ghost.users node) pc next := ⟨.stay facts uses, work⟩
  have users : (ghost.put node place (ghost.users node)).users = ghost.users := by
    simp only [Ghost.put, Function.update_eq_self]
  refine ⟨sound, ?_, fun other apart point same => ?_, fun other => ?_⟩
  · obtain ⟨uses, works, _⟩ := turn.own facts knows
    rw [users] at uses
    exact ⟨uses, works, knows⟩
  · have known : point.Knows (list.setHead head) := same.keeps fun _ _ => rfl
    obtain ⟨uses, works, known⟩ := turn.others apart same known
    rw [users] at uses
    exact ⟨uses, works, known⟩
  · subst none
    exact put_held (ghost.users node) (held.trans (or_iff_left (Option.some_ne_none node ∘ Eq.symm)).symm)
      (fun other same => absurd same (Option.some_ne_none other ∘ Eq.symm)) other

theorem Moves.knowingLinks (sound : Sound ghost list)
    (facts : Facts thread ghost list (.knowingExchange node list.freeListHead resume)) :
    ∃ later, Moves thread ghost later list (list.setHead (some node)) resume.continue.1 none := by
  have place := facts.place_eq rfl
  have unlisted : node ∉ ghost.stack := by
    rw [← sound.listed, place]
    exact nofun
  have link : list.freeListNext node = list.freeListHead := facts.knows
  have kept : Sound ⟨node :: ghost.stack, Function.update ghost.place node .listed, ghost.users⟩
      (list.setHead (some node)) := by
    refine sound.setHead (sound.busy place) nofun nofun (sound.chained.push link)
      (List.nodup_cons.mpr ⟨unlisted, sound.nodup⟩) ?_ fun other apart => ?_
    · simp
    · simp [apart]
  refine ⟨_, Turn.exchange (.leave .listed (facts.mine rfl) ?_ nofun
    (continue_works resume)) facts (continue_uses resume) kept (continue_knows resume _) ?_ rfl⟩
  · intro other phase same
    cases same
    rfl
  · simp [place]

/-- A thread that refers to a node knows its successor, so the exchange removes
exactly this node. -/
theorem Moves.getUnlinks (sound : Sound ghost list) {follower : Option Node}
    (facts : Facts thread ghost list (.getExchangeHead node follower))
    (top : list.freeListHead = some node) :
    ∃ later, Moves thread ghost later list (list.setHead follower) (.getAssert node) none := by
  have link : list.freeListNext node = follower := facts.knows
  have chained := sound.chained
  rw [top] at chained
  obtain ⟨rest, stack, linked⟩ := chained.eq_cons
  have nodup := sound.nodup
  rw [stack] at nodup
  obtain ⟨apart, nodup⟩ := List.nodup_cons.mp nodup
  have place : ghost.place node = .listed := by
    rw [sound.listed, stack]
    exact List.mem_cons_self
  have counted := sound.counted node
  rw [place] at counted
  rw [link] at linked
  have kept : Sound ⟨rest, Function.update ghost.place node (.busy thread .taken), ghost.users⟩
      (list.setHead follower) := by
    refine sound.setHead counted nofun nofun linked nodup ?_ fun other different => ?_
    · simp [apart]
    · simp [stack, different]
  refine ⟨_, Turn.exchange (.phase .taken ?_ ?_ rfl) facts rfl kept trivial ?_ rfl⟩
  · rw [place]
    exact nofun
  · exact nofun
  · simp [place]

variable [DecidableEq Thread]

theorem Moves.getRefers [Fintype Thread] (few : Fintype.card Thread + 1 < 2 ^ 31)
    (sound : Sound ghost list)
    (facts : Facts thread ghost list (.getExchangeRefs node (list.freeListRefs node))) :
    ∃ later, Moves thread ghost later list (list.setRefs node (list.freeListRefs node + 1))
      (.getLoadNext node) none := by
  have counted := sound.counted node
  have unused : thread ∉ ghost.users node := facts.unused rfl
  have positive : (ghost.place node).own + (ghost.users node).card ≠ 0 :=
    fun zero => facts.knows (counted.mask.mpr zero)
  have more := Finset.card_insert_of_notMem unused
  refine ⟨_, .keep sound facts ⟨.enter rfl rfl, .stay facts rfl⟩ ?_ ?_ ?_ Iff.rfl trivial Iff.rfl⟩
  · rw [more, ← Nat.add_assoc]
    apply counted.up
    have most := Finset.card_le_univ (insert thread (ghost.users node))
    have own := (ghost.place node).own_le
    omega
  · intro other adding
    have alone := sound.adding node other adding
    rw [adding, alone] at positive
    exact absurd rfl positive
  · intro _
    exact Finset.insert_ne_empty thread (ghost.users node)

omit [DecidableEq Node] in
/-- The count of a node that one of its users leaves. -/
theorem Sound.erase (sound : Sound ghost list) (used : thread ∈ ghost.users node) :
    Counted (list.freeListRefs node) (ghost.place node).flagged
      ((ghost.place node).own + (((ghost.users node).erase thread).card + 1)) := by
  rw [Finset.card_erase_add_one used]
  exact sound.counted node

theorem Moves.getSubRefs (sound : Sound ghost list)
    (facts : Facts thread ghost list (.getSubRefs node)) :
    ∃ later, Moves thread ghost later list (list.setRefs node (list.freeListRefs node - 2)) .idle
      (some node) := by
  have place := facts.place_eq rfl
  have counted := sound.erase ((facts.uses node).mpr rfl)
  rw [place] at counted
  refine ⟨_, .put sound facts
    ⟨.leave rfl rfl, .leave .held (facts.mine rfl) ?_ nofun rfl⟩
    ?_ nofun nofun ?_ trivial ?_ ?_⟩
  · intro other phase same
    cases same
    rfl
  · change Counted _ false (1 + (((ghost.users node).erase thread).card + 1)) at counted
    change Counted _ false (0 + ((ghost.users node).erase thread).card)
    rw [Nat.add_comm] at counted
    rw [Nat.zero_add]
    exact counted.downTwo
  · simp [place]
  · simp
  · intro other same
    cases same
    rfl

theorem Moves.getReleases (sound : Sound ghost list)
    (facts : Facts thread ghost list (.getRelease node head))
    (more : list.freeListRefs node ≠ SHOULD_BE_ON_FREELIST + 1) :
    ∃ later, Moves thread ghost later list (list.setRefs node (list.freeListRefs node - 1))
      (loop head).1 none := by
  have used : thread ∈ ghost.users node := (facts.uses node).mpr rfl
  have counted := sound.erase used
  refine ⟨_, .keep sound facts ⟨.leave rfl (loop_uses head), .stay facts (loop_works head)⟩
    ?_ ?_ ?_ Iff.rfl (loop_knows head _) Iff.rfl⟩
  · rw [← Nat.add_assoc] at counted
    exact counted.down
  · intro other adding
    rw [sound.adding node other adding]
    rfl
  · intro pending none
    rw [pending, none] at counted
    exact more ((counted.eq_iff (Counted.one.raise)).mpr ⟨rfl, rfl⟩)

theorem Moves.getLinks (sound : Sound ghost list)
    (facts : Facts thread ghost list (.getRelease node head))
    (last : list.freeListRefs node = SHOULD_BE_ON_FREELIST + 1) :
    ∃ later, Moves thread ghost later list (list.setRefs node (list.freeListRefs node - 1))
      (.knowingLoadHead node (.getting head)) none := by
  have used : thread ∈ ghost.users node := (facts.uses node).mpr rfl
  have counted := sound.erase used
  obtain ⟨flagged, one⟩ := (counted.eq_iff (Counted.one.raise)).mp last
  have pending : ghost.place node = .pending := by
    cases place : ghost.place node with
    | pending => rfl
    | held | listed => rw [place] at flagged; cases flagged
    | busy other phase =>
        cases phase with
        | adding =>
            rw [sound.adding node other place] at used
            exact absurd used (Finset.notMem_empty thread)
        | given | offered | taken => rw [place] at flagged; cases flagged
  rw [pending] at counted one
  have alone : (ghost.users node).erase thread = ∅ := by
    simpa [Place.own] using one
  refine ⟨_, .keep sound facts ⟨.leave rfl rfl, .phase .adding ?_ nofun rfl⟩
    ?_ (fun _ _ => alone) nofun ?_ trivial ?_⟩
  · rw [pending]
    exact nofun
  · rw [alone] at counted ⊢
    exact counted.down
  · simp [pending]
  · simp [pending]

end Steps

end DmLockFree.ConcurrentQueue.FreeList
