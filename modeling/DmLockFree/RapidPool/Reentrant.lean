import DmLockFree.Library.History
import DmLockFree.RapidPool.ChunkHistory
import DmLockFree.RapidPool.Client

/-! Constructors and destructors of `T` that use the pool themselves. `FetchObj`
is done with the pool before it runs the constructor; `ReleaseObj` has linked the
slot and cleared `dwUse` before it runs the destructor. -/

set_option autoImplicit false

namespace DmLockFree.CDynamicRapidPool

namespace Reentrant

open Library CDMRapidPool FreeSlots

variable {S I : Nat}

/-- A constructor or destructor that runs inside `FetchObj` or `ReleaseObj`. -/
inductive Frame where
  | constructing (slot : Slot)
  | destroying (slot : Slot)
  deriving DecidableEq, Repr

/-- The innermost callback comes first. `objects` are those whose constructor has
started and whose release has not. -/
structure State (S I : Nat) where
  pool : CDynamicRapidPool S I
  objects : List Slot
  frames : List Frame

inductive Request where
  | fetch
  | release (slot : Option Slot)
  | finish
  deriving DecidableEq, Repr

inductive Event where
  | fetched (slot : Option Slot)
  | released (slot : Option Slot)
  | constructed (slot : Slot)
  | destroyed (slot : Slot)
  | stopped (stop : Stop)
  deriving DecidableEq, Repr

/-- The calls may come from the innermost callback or, without one, from outside;
`finish` is the return of the innermost callback and with it of its call. -/
def machine (S I : Nat) (distance : Nat → Slot → UInt16) : Machine (State S I) Request Event where
  start := ⟨.construct S I, [], []⟩
  step state
    | .fetch =>
        match state.pool.fetchObj false with
        | .ok (none, pool) => some ({ state with pool }, .fetched none)
        | .ok (some slot, pool) =>
            some (⟨pool, slot :: state.objects, .constructing slot :: state.frames⟩,
              .fetched (some slot))
        | .error stop => some (state, .stopped stop)
    | .release none => some (state, .released none)
    | .release (some slot) =>
        if slot ∈ state.objects then
          match state.pool.releaseObj false distance (some slot) with
          | .ok pool =>
              some (⟨pool, state.objects.erase slot, .destroying slot :: state.frames⟩,
                .released (some slot))
          | .error stop => some (state, .stopped stop)
        else none
    | .finish =>
        match state.frames with
        | .constructing slot :: frames => some ({ state with frames }, .constructed slot)
        | .destroying slot :: frames => some ({ state with frames }, .destroyed slot)
        | [] => none

/-- The slots of the objects whose destructor has not returned. -/
def dying (frames : List Frame) : List Slot :=
  frames.filterMap fun frame => match frame with
    | .destroying slot => some slot
    | _ => none

/-- The slots of all objects that are alive, from the start of the constructor to
the return of the destructor. -/
def State.lifetimes (state : State S I) : List Slot := state.objects ++ dying state.frames

/-- What an event says of the slots of one chunk. -/
def Event.loan (number : Nat) : Event → Option (Loan Nat)
  | .fetched (some slot) => if slot.chunk = number then some (.taken slot.index) else none
  | .released (some slot) => if slot.chunk = number then some (.returned slot.index) else none
  | _ => none

def chunkLoans (number : Nat) (events : List Event) : List (Loan Nat) :=
  events.filterMap (Event.loan number)

/-- The objects that are being destroyed, as the calls and returns show them. -/
def destructing (events : List Event) : List Slot :=
  events.foldl (fun slots event => match event with
    | .released (some slot) => slot :: slots
    | .destroyed slot => slots.erase slot
    | _ => slots) []

/-- All `S` slots of the chunks before this one are out, and of the slots that are
back in its own chunk this one came back last. -/
def LastReleased (S : Nat) (events : List Event) (slot : Slot) : Prop :=
  (∀ number, number < slot.chunk → Loan.outstanding (chunkLoans number events) = S) ∧
    Loan.LastBack (chunkLoans slot.chunk events) slot.index

instance (events : List Event) (slot : Slot) : Decidable (LastReleased S events slot) :=
  inferInstanceAs (Decidable (_ ∧ _))

/-- `FetchObj` is not called while the slot that was released last is that of an
object whose destructor is running. -/
def Spares (S : Nat) (earlier : List Event) : Event → Prop
  | .fetched _ => ∀ slot, slot ∈ destructing earlier → ¬LastReleased S earlier slot
  | _ => True

instance (earlier : List Event) : (event : Event) → Decidable (Spares S earlier event)
  | .fetched _ => inferInstanceAs (Decidable (∀ slot, slot ∈ destructing earlier → _))
  | .released _ | .constructed _ | .destroyed _ | .stopped _ => inferInstanceAs (Decidable True)

section Histories

variable {frees later : FreeSlots} {events : List Event} {event : Event} {slot : Slot}
  {number : Nat} {free : List Nat} {loan : Loan Nat} {live : List Slot}

theorem chunkLoans_snoc :
    chunkLoans number (events ++ [event]) =
      chunkLoans number events ++ (event.loan number).toList := by
  rw [chunkLoans, List.filterMap_append, chunkLoans]
  cases said : event.loan number with
  | none => rw [List.filterMap_cons_none said]; rfl
  | some loan => rw [List.filterMap_cons_some said]; rfl

theorem mem_chunkLoans_snoc (known : loan ∈ chunkLoans number events) :
    loan ∈ chunkLoans number (events ++ [event]) := by
  rw [chunkLoans_snoc]
  exact List.mem_append_left _ known

/-- The free slots of every chunk are those of its history. -/
structure Histories (S : Nat) (events : List Event) (frees : FreeSlots) : Prop where
  accounted : ∀ (number : Nat) (free : List Nat), frees[number]? = some free →
    Accounted S (chunkLoans number events) free
  unopened : ∀ number, frees.length ≤ number → chunkLoans number events = []

namespace Histories

theorem start : Histories S [] [List.range S] where
  accounted number free present := by
    cases number with
    | zero =>
        cases present
        exact .start
    | succ number => cases present
  unopened _ _ := rfl

theorem silent (histories : Histories S events frees)
    (silent : ∀ number, event.loan number = none) : Histories S (events ++ [event]) frees := by
  have same : ∀ number, chunkLoans number (events ++ [event]) = chunkLoans number events := by
    intro number
    rw [chunkLoans_snoc, silent]
    exact List.append_nil _
  constructor
  · intro number free present
    rw [same]
    exact histories.accounted number free present
  · intro number beyond
    rw [same]
    exact histories.unopened number beyond

/-- The event concerns a slot of one chunk. -/
theorem set (histories : Histories S events frees) (below : number < frees.length)
    (own : event.loan number = some loan)
    (others : ∀ other, other ≠ number → event.loan other = none)
    (accounted : Accounted S (chunkLoans number events ++ [loan]) free) :
    Histories S (events ++ [event]) (frees.set number free) := by
  constructor
  · intro other stack present
    rw [chunkLoans_snoc]
    by_cases same : other = number
    · subst same
      rw [List.getElem?_set_self below] at present
      cases present
      rw [own]
      exact accounted
    · rw [List.getElem?_set_ne (Ne.symm same)] at present
      rw [others other same]
      simpa using histories.accounted other stack present
  · intro other beyond
    rw [List.length_set] at beyond
    rw [chunkLoans_snoc, histories.unopened other beyond, others other (by omega)]
    rfl

theorem fetch (histories : Histories S events frees) (positive : 1 ≤ S) {limit : Nat}
    (accounts : Accounts S limit frees live) (taken : take S limit frees = some (slot, later)) :
    Histories S (events ++ [.fetched (some slot)]) later := by
  have own : (Event.fetched (some slot)).loan slot.chunk = some (.taken slot.index) := if_pos rfl
  have others : ∀ other, other ≠ slot.chunk → (Event.fetched (some slot)).loan other = none :=
    fun other apart => if_neg (Ne.symm apart)
  rcases take_cases taken with ⟨free, present, rfl⟩ | ⟨_, _, rfl, rfl⟩
  · obtain ⟨nodup, inside⟩ := accounts.free _ _ present
    have accounted := (histories.accounted _ _ present).fetch
      (inside slot.index List.mem_cons_self) (List.nodup_cons.mp nodup).1
    exact histories.set (List.getElem?_eq_some_iff.mp present).1 own others accounted.2
  · -- The chunk is new: nothing was ever fetched from it.
    have first : List.range S = 0 :: opened S := by
      rw [List.range_eq_range', ← Nat.sub_add_cancel positive, List.range'_succ]
      rfl
    have opens : Accounted S [.taken 0] (opened S) := by
      have start : Accounted S [] (0 :: opened S) := by
        rw [← first]
        exact .start
      refine (start.fetch positive ?_).2
      rw [mem_opened positive]
      omega
    constructor
    · intro number free present
      rw [chunkLoans_snoc]
      rcases Nat.lt_trichotomy number frees.length with old | rfl | beyond
      · rw [List.getElem?_append_left old] at present
        rw [others number (Nat.ne_of_lt old)]
        simpa using histories.accounted number free present
      · rw [List.getElem?_concat_length] at present
        cases present
        rw [own, histories.unopened _ le_rfl]
        exact opens
      · rw [List.getElem?_eq_none (by rw [List.length_append]; exact beyond)] at present
        cases present
    · intro number beyond
      rw [List.length_append, List.length_singleton] at beyond
      rw [chunkLoans_snoc, histories.unopened number (by omega),
        others number (Nat.ne_of_gt beyond)]
      rfl

theorem release (histories : Histories S events frees) (present : frees[slot.chunk]? = some free) :
    Histories S (events ++ [.released (some slot)]) (frees.put slot) := by
  rw [put_eq present]
  exact histories.set (List.getElem?_eq_some_iff.mp present).1 (if_pos rfl)
    (fun other apart => if_neg (Ne.symm apart)) (histories.accounted _ _ present).release

/-- Where `FetchObj` finds a slot that it has handed out before. -/
theorem takeFirst_iff (histories : Histories S events frees) (positive : 1 ≤ S)
    (placed : slot.chunk < frees.length)
    (known : .taken slot.index ∈ chunkLoans slot.chunk events) :
    (∃ later, takeFirst frees = some (slot, later)) ↔ LastReleased S events slot := by
  rw [FreeSlots.takeFirst_iff, LastReleased]
  refine and_congr (forall_congr' fun number => forall_congr' fun before => ?_) ?_
  · have below := before.trans placed
    rw [List.getElem?_eq_getElem below, Option.some.injEq,
      (histories.accounted number _ (List.getElem?_eq_getElem below)).full_iff positive]
  · have accounted := histories.accounted _ _ (List.getElem?_eq_getElem placed)
    rw [accounted.lastBack_iff known, List.getElem?_eq_getElem placed]
    simp only [Option.some.injEq]

end Histories

end Histories

/-- The slots that are not free are those of `objects`; the calls and returns tell
which objects are dying and what each chunk will hand out next. -/
structure Sound (events : List Event) (state : State S I) (frees : FreeSlots) : Prop where
  represents : Represents frees state.pool
  accounts : Accounts S (I + 1) frees state.objects
  histories : Histories S events frees
  told : destructing events = dying state.frames
  known : ∀ slot, slot ∈ dying state.frames →
    slot.chunk < frees.length ∧ .taken slot.index ∈ chunkLoans slot.chunk events

section Steps

variable {distance : Nat → Slot → UInt16} {state after : State S I} {frees : FreeSlots}
  {events : List Event} {request : Request} {event : Event}

/-- What a step does to the lifetimes. -/
inductive LifeStep (events : List Event) (before after : State S I) : Request → Event → Prop where
  | same {request : Request} {event : Event} (returns : ∀ stop, event ≠ .stopped stop)
      (objects : after.objects = before.objects)
      (frames : (dying after.frames).Sublist (dying before.frames)) :
      LifeStep events before after request event
  | begin (slot : Slot) (fresh : slot ∉ before.objects)
      (latest : slot ∈ dying before.frames → LastReleased S events slot)
      (objects : after.objects = slot :: before.objects)
      (frames : dying after.frames = dying before.frames) :
      LifeStep events before after .fetch (.fetched (some slot))
  | release (slot : Slot) (member : slot ∈ before.objects)
      (objects : after.objects = before.objects.erase slot)
      (frames : dying after.frames = slot :: dying before.frames) :
      LifeStep events before after (.release (some slot)) (.released (some slot))

theorem destructing_snoc (events : List Event) (event : Event) :
    destructing (events ++ [event]) = match event with
      | .released (some slot) => slot :: destructing events
      | .destroyed slot => (destructing events).erase slot
      | _ => destructing events := by
  rw [destructing, List.foldl_append]
  rfl

/-- The event is about no slot, and no destructor begins. -/
theorem Sound.silent (sound : Sound events state frees) {frames : List Frame}
    (silent : ∀ number, event.loan number = none)
    (told : destructing (events ++ [event]) = dying frames)
    (fewer : (dying frames).Sublist (dying state.frames)) :
    Sound (events ++ [event]) { state with frames } frees where
  represents := sound.represents
  accounts := sound.accounts
  histories := sound.histories.silent silent
  told := told
  known slot member := (sound.known slot (fewer.subset member)).imp_right mem_chunkLoans_snoc

theorem fetch_sound (bounds : Bounds S I) (sound : Sound events state frees)
    (taken : (machine S I distance).step state .fetch = some (after, event)) :
    LifeStep events state after .fetch event ∧
      ∃ frees, Sound (events ++ [event]) after frees := by
  cases found : take S (I + 1) frees with
  | none =>
      simp only [machine, sound.represents.fetchObj_none found] at taken
      cases taken
      refine ⟨.same nofun rfl (List.Sublist.refl _), frees,
        sound.silent (fun _ => rfl) ?_ (List.Sublist.refl _)⟩
      rw [destructing_snoc]
      exact sound.told
  | some result =>
      obtain ⟨represents, accounts, histories, told, known⟩ := sound
      obtain ⟨slot, later⟩ := result
      obtain ⟨fresh, next⟩ := accounts.take bounds.positive found
      obtain ⟨chunk, fetched, represented⟩ := represents.fetchObj bounds found
      simp only [machine, fetched] at taken
      cases taken
      constructor
      · refine .begin slot fresh (fun member => ?_) rfl rfl
        obtain ⟨placed, out⟩ := known slot member
        rw [← histories.takeFirst_iff bounds.positive placed out]
        exact ⟨later, take_placed found placed⟩
      · refine ⟨later, represented, next, histories.fetch bounds.positive accounts found, ?_, ?_⟩
        · rw [destructing_snoc]
          exact told
        · intro other member
          obtain ⟨placed, out⟩ := known other member
          exact ⟨placed.trans_le (length_le_take found), mem_chunkLoans_snoc out⟩

theorem release_sound (bounds : Bounds S I) (sound : Sound events state frees) {slot : Slot}
    (taken : (machine S I distance).step state (.release (some slot)) = some (after, event)) :
    LifeStep events state after (.release (some slot)) event ∧
      ∃ frees, Sound (events ++ [event]) after frees := by
  obtain ⟨represents, accounts, histories, told, known⟩ := sound
  simp only [machine] at taken
  split at taken
  case isFalse => cases taken
  case isTrue member =>
      obtain ⟨free, present, inside, used⟩ := (accounts.live_iff slot).mp member
      obtain ⟨chunk, released, stack⟩ := represents.releaseObj bounds present inside used
      have below := (List.getElem?_eq_some_iff.mp present).1
      have put := put_eq present
      simp only [released] at taken
      cases taken
      refine ⟨.release slot member rfl rfl, frees.put slot, ?_, accounts.put member,
        histories.release present, ?_, ?_⟩
      · rw [put]
        exact represents.setChunk below stack
      · rw [destructing_snoc]
        exact congrArg (slot :: ·) told
      · intro other among
        rw [put, List.length_set]
        rcases List.mem_cons.mp among with rfl | before
        · have out := (histories.accounted _ _ present).taken_of_used inside used
          exact ⟨below, mem_chunkLoans_snoc out⟩
        · exact (known other before).imp_right mem_chunkLoans_snoc

theorem finish_sound (sound : Sound events state frees)
    (taken : (machine S I distance).step state .finish = some (after, event)) :
    LifeStep events state after .finish event ∧
      ∃ frees, Sound (events ++ [event]) after frees := by
  have told := sound.told
  simp only [machine] at taken
  split at taken
  case h_1 slot frames top =>
      cases taken
      have same : dying state.frames = dying frames := by rw [top]; rfl
      have fewer : (dying frames).Sublist (dying state.frames) := by rw [same]
      refine ⟨.same nofun rfl fewer, frees, sound.silent (fun _ => rfl) ?_ fewer⟩
      rw [destructing_snoc, ← same]
      exact told
  case h_2 slot frames top =>
      cases taken
      have more : dying state.frames = slot :: dying frames := by rw [top]; rfl
      have fewer : (dying frames).Sublist (dying state.frames) := by
        rw [more]
        exact List.sublist_cons_self slot _
      refine ⟨.same nofun rfl fewer, frees, sound.silent (fun _ => rfl) ?_ fewer⟩
      rw [destructing_snoc]
      simp only [told, more, List.erase_cons_head]
  case h_3 => cases taken

theorem step_sound (bounds : Bounds S I) (sound : Sound events state frees)
    (taken : (machine S I distance).step state request = some (after, event)) :
    LifeStep events state after request event ∧
      ∃ frees, Sound (events ++ [event]) after frees := by
  cases request with
  | fetch => exact fetch_sound bounds sound taken
  | release slot =>
      cases slot with
      | none =>
          cases taken
          refine ⟨.same nofun rfl (List.Sublist.refl _), frees,
            sound.silent (fun _ => rfl) ?_ (List.Sublist.refl _)⟩
          rw [destructing_snoc]
          exact sound.told
      | some slot => exact release_sound bounds sound taken
  | finish => exact finish_sound sound taken

theorem LifeStep.apart (step : LifeStep events state after request event)
    (told : destructing events = dying state.frames) (apart : state.lifetimes.Nodup)
    (spares : Spares S events event) : after.lifetimes.Nodup := by
  unfold State.lifetimes at apart ⊢
  cases step with
  | same _ objects frames =>
      rw [objects]
      exact apart.sublist ((List.Sublist.refl _).append frames)
  | begin slot fresh latest objects frames =>
      rw [objects, frames, List.cons_append, List.nodup_cons]
      constructor
      · intro member
        rcases List.mem_append.mp member with alive | dies
        · exact fresh alive
        · have among : slot ∈ destructing events := by rwa [told]
          exact spares slot among (latest dies)
      · exact apart
  | release slot member objects frames =>
      rw [objects, frames]
      apply ((List.perm_cons_erase member).append_right _).nodup_iff.mp at apart
      exact List.perm_middle.nodup_iff.mpr apart

theorem run_sound (bounds : Bounds S I) (run : (machine S I distance).Run events state) :
    ∃ frees, Sound events state frees := by
  induction run with
  | refl => exact ⟨[List.range S], .construct bounds, .start, .start, rfl, nofun⟩
  | snoc _ taken ih =>
      obtain ⟨frees, sound⟩ := ih
      exact (step_sound bounds sound taken).2

/-- Also inside callbacks, and whatever they do, every chunk counts its slots. -/
theorem counts_unused (sound : Sound events state frees) {number : Nat} {chunk : CDMRapidPool S}
    (found : state.pool.chunk number = some chunk) :
    chunk.stRapidData.countP (fun p => !p.dwUse) = chunk.qwFreeCount.toNat := by
  obtain ⟨free, stack⟩ := sound.represents.chunk found
  rw [stack.countP_unused, stack.count]

/-- The condition cannot be weakened: a fetch that does not spare the dying
objects puts the new object into the slot of one of them. -/
theorem unspared_shares (bounds : Bounds S I) (run : (machine S I distance).Run events state)
    {slot : Slot} (dies : slot ∈ destructing events) (latest : LastReleased S events slot) :
    ∃ after, (machine S I distance).step state .fetch = some (after, .fetched (some slot)) ∧
      ¬after.lifetimes.Nodup := by
  obtain ⟨frees, sound⟩ := run_sound bounds run
  rw [sound.told] at dies
  obtain ⟨placed, out⟩ := sound.known slot dies
  obtain ⟨later, first⟩ := (sound.histories.takeFirst_iff bounds.positive placed out).mpr latest
  have taken : take S (I + 1) frees = some (slot, later) := by simp only [take, first]
  obtain ⟨chunk, fetched, _⟩ := sound.represents.fetchObj bounds taken
  refine ⟨_, by simp only [machine, fetched]; rfl, ?_⟩
  unfold State.lifetimes
  rw [List.cons_append, List.nodup_cons]
  intro apart
  exact apart.1 (List.mem_append_right _ dies)

end Steps

/-- Calls nested in constructors and destructors to any depth. When no fetch comes
while the slot released last is that of an object that is being destroyed, all
objects whose lifetimes overlap have slots of their own. In every chunk the slots
not in use are as many as `m_qwFreeCount` says, and every call returns. -/
theorem lifetimes_apart {S I : Nat} {distance : Nat → Slot → UInt16} {state : State S I}
    {events : List Event} (slots : 1 ≤ S) (size : S < 65535) (index : I < 32767)
    (run : (machine S I distance).Run events state) (spares : Along (Spares S) events) :
    state.lifetimes.Nodup ∧
    (∀ number chunk, state.pool.chunk number = some chunk →
      chunk.stRapidData.countP (fun p => !p.dwUse) = chunk.qwFreeCount.toNat) ∧
    ∀ stop, .stopped stop ∉ events := by
  have bounds : Bounds S I := ⟨slots, size, index⟩
  have lives : state.lifetimes.Nodup ∧ ∀ stop, .stopped stop ∉ events := by
    induction run with
    | refl => exact ⟨List.nodup_nil, nofun⟩
    | @snoc state after events request event path taken ih =>
        obtain ⟨apart, returns⟩ := ih spares.init
        obtain ⟨frees, sound⟩ := run_sound bounds path
        have step := (step_sound bounds sound taken).1
        constructor
        · exact step.apart sound.told apart spares.last
        · intro stop member
          rcases List.mem_append.mp member with before | last
          · exact returns stop before
          · cases List.mem_singleton.mp last
            cases step with
            | same returns => exact returns stop rfl
  obtain ⟨frees, sound⟩ := run_sound bounds run
  exact ⟨lives.1, fun number chunk found => counts_unused sound found, lives.2⟩

/-- The destructor of an object in the grown chunk fetches from the default one, and
the constructor inside that fetch releases a third object. -/
def nested : List Request :=
  [.fetch, .finish, .fetch, .finish, .fetch, .finish, .release (some ⟨0, 0⟩), .finish,
    .release (some ⟨1, 0⟩), .fetch, .release (some ⟨0, 1⟩), .finish, .finish]

def nestedEvents : List Event :=
  [.fetched (some ⟨0, 0⟩), .constructed ⟨0, 0⟩, .fetched (some ⟨0, 1⟩), .constructed ⟨0, 1⟩,
    .fetched (some ⟨1, 0⟩), .constructed ⟨1, 0⟩, .released (some ⟨0, 0⟩), .destroyed ⟨0, 0⟩,
    .released (some ⟨1, 0⟩), .fetched (some ⟨0, 0⟩), .released (some ⟨0, 1⟩), .destroyed ⟨0, 1⟩,
    .constructed ⟨0, 0⟩]

theorem lifetimes_apart_nested :
    ∃ state : State 2 1, (machine 2 1 fun _ _ => 0).Run nestedEvents state ∧
      Along (Spares 2) nestedEvents ∧ state.objects = [⟨0, 0⟩] ∧
      state.frames = [.destroying ⟨1, 0⟩] ∧ state.lifetimes.Nodup := by
  have run : (machine 2 1 fun _ _ => 0).Run nestedEvents _ :=
    Machine.exec_run (machine 2 1 fun _ _ => 0) nested rfl
  have spares : Along (Spares 2) nestedEvents :=
    Along.of_check (fun _ _ => of_decide_eq_true) (by decide)
  exact ⟨_, run, spares, rfl, rfl,
    (lifetimes_apart (by decide) (by decide) (by decide) run spares).1⟩

/-- A destructor that fetches gets the slot of the object it is destroying. -/
theorem destructor_fetches_own_slot :
    ∃ (events : List Event) (state : State 2 1),
      (machine 2 1 fun _ _ => 0).Run events state ∧
      events = [.fetched (some ⟨0, 0⟩), .constructed ⟨0, 0⟩, .released (some ⟨0, 0⟩),
        .fetched (some ⟨0, 0⟩)] ∧
      state.frames = [.constructing ⟨0, 0⟩, .destroying ⟨0, 0⟩] ∧ ¬state.lifetimes.Nodup := by
  have run := Machine.exec_run (machine 2 1 fun _ _ => 0)
    [.fetch, .finish, .release (some ⟨0, 0⟩), .fetch] rfl
  exact ⟨_, _, run, rfl, rfl, by decide⟩

end Reentrant

end DmLockFree.CDynamicRapidPool
