import Mathlib.Data.Finset.Card
import Mathlib.Logic.Function.Basic

/-!
# Monitors

A mutex and a condition variable. The threads inside `wait` are asleep or have
been woken and must take the mutex again. A condition variable covers a number
of tokens, with some slack, if it does not leave more tokens than woken threads
while others sleep.
-/

set_option autoImplicit false

namespace DmLockFree.Library

/-- The owner of the mutex is the one thread whose program point is inside the
critical section. -/
def Exclusive {Thread Pc : Type} (inside : Pc → Bool) (pc : Thread → Pc)
    (mutex : Option Thread) : Prop :=
  ∀ thread, inside (pc thread) = true ↔ mutex = some thread

section Exclusive

variable {Thread Pc : Type} {inside : Pc → Bool} {pc : Thread → Pc} {mutex : Option Thread}
  {thread other : Thread} {point : Pc}

theorem Exclusive.unique (exclusive : Exclusive inside pc mutex)
    (first : inside (pc thread) = true) (second : inside (pc other) = true) : other = thread := by
  have owner := (exclusive thread).mp first
  rw [(exclusive other).mp second] at owner
  exact Option.some.inj owner

theorem Exclusive.outside (exclusive : Exclusive inside pc mutex)
    (holder : inside (pc thread) = true) (apart : other ≠ thread) :
    inside (pc other) = false := by
  rw [← Bool.not_eq_true]
  intro enters
  exact apart (exclusive.unique holder enters)

theorem Exclusive.free (exclusive : Exclusive inside pc none) : inside (pc thread) = false := by
  rw [← Bool.not_eq_true, exclusive thread]
  nofun

variable [DecidableEq Thread]

theorem Exclusive.move (exclusive : Exclusive inside pc mutex)
    (same : inside point = inside (pc thread)) :
    Exclusive inside (Function.update pc thread point) mutex := by
  intro other
  rw [Function.update_apply]
  split
  case isTrue mine =>
      rw [same, mine]
      exact exclusive thread
  case isFalse => exact exclusive other

theorem Exclusive.acquire (exclusive : Exclusive inside pc none) (enters : inside point = true) :
    Exclusive inside (Function.update pc thread point) (some thread) := by
  intro other
  rw [Function.update_apply]
  split
  case isTrue mine => simp [enters, mine]
  case isFalse apart => simp [exclusive.free, Ne.symm apart]

theorem Exclusive.release (exclusive : Exclusive inside pc mutex)
    (holder : inside (pc thread) = true) (leaves : inside point = false) :
    Exclusive inside (Function.update pc thread point) none := by
  intro other
  rw [Function.update_apply]
  split
  case isTrue => simp [leaves]
  case isFalse apart => simp [exclusive.outside holder apart]

end Exclusive

structure ConditionVariable (Thread : Type) where
  waiting : Finset Thread
  woken : Finset Thread
  apart : Disjoint waiting woken

namespace ConditionVariable

variable {Thread : Type}

def empty : ConditionVariable Thread := ⟨∅, ∅, Finset.disjoint_empty_left ∅⟩

def Blocked (cond : ConditionVariable Thread) (thread : Thread) : Prop :=
  thread ∈ cond.waiting ∨ thread ∈ cond.woken

def Covers (cond : ConditionVariable Thread) (tokens slack : Nat) : Prop :=
  cond.waiting.Nonempty → tokens ≤ cond.woken.card + slack

section Covers

variable {cond : ConditionVariable Thread} {tokens slack : Nat}

theorem covers_empty : (empty : ConditionVariable Thread).Covers tokens slack := by
  intro asleep
  simp [empty] at asleep

/-- Unused slack does no harm. -/
theorem Covers.weaken (covers : cond.Covers tokens 0) : cond.Covers tokens slack := by
  intro asleep
  exact (covers asleep).trans (Nat.le_add_right _ slack)

theorem Covers.add (covers : cond.Covers tokens slack) : cond.Covers (tokens + 1) (slack + 1) := by
  intro asleep
  exact Nat.succ_le_succ (covers asleep)

theorem Covers.take (covers : cond.Covers (tokens + 1) (slack + 1)) :
    cond.Covers tokens slack := by
  intro asleep
  exact Nat.le_of_succ_le_succ (covers asleep)

end Covers

variable [DecidableEq Thread]

/-- The thread falls asleep. -/
def wait (cond : ConditionVariable Thread) (thread : Thread) : ConditionVariable Thread where
  waiting := insert thread cond.waiting
  woken := cond.woken.erase thread
  apart := by
    rw [Finset.disjoint_insert_left]
    constructor
    · exact Finset.notMem_erase thread cond.woken
    · exact cond.apart.mono_right (Finset.erase_subset thread cond.woken)

/-- The chosen threads wake up, those of them that are asleep. -/
def wake (cond : ConditionVariable Thread) (chosen : Finset Thread) : ConditionVariable Thread where
  waiting := cond.waiting \ chosen
  woken := cond.woken ∪ cond.waiting ∩ chosen
  apart := by
    rw [Finset.disjoint_union_right]
    constructor
    · exact cond.apart.mono_left Finset.sdiff_subset
    · exact Finset.disjoint_sdiff_inter cond.waiting chosen

/-- The thread has the mutex again and leaves `wait`. -/
def leave (cond : ConditionVariable Thread) (thread : Thread) : ConditionVariable Thread where
  waiting := cond.waiting
  woken := cond.woken.erase thread
  apart := cond.apart.mono_right (Finset.erase_subset thread cond.woken)

/-- What `notify_one` may do: wake sleepers, and some sleeper if there is one. -/
def Notifies (cond : ConditionVariable Thread) (chosen : Finset Thread) : Prop :=
  chosen ⊆ cond.waiting ∧ (cond.waiting.Nonempty → chosen.Nonempty)

instance (cond : ConditionVariable Thread) (chosen : Finset Thread) :
    Decidable (cond.Notifies chosen) :=
  inferInstanceAs (Decidable (_ ∧ _))

variable {cond : ConditionVariable Thread} {thread other : Thread} {chosen : Finset Thread}
  {tokens slack : Nat}

theorem blocked_wait : (cond.wait thread).Blocked other ↔ other = thread ∨ cond.Blocked other := by
  by_cases same : other = thread <;> simp [wait, Blocked, same]

theorem blocked_wake : (cond.wake chosen).Blocked other ↔ cond.Blocked other := by
  by_cases member : other ∈ chosen <;> simp [wake, Blocked, member, or_comm]

theorem blocked_leave (awake : thread ∈ cond.woken) :
    (cond.leave thread).Blocked other ↔ other ≠ thread ∧ cond.Blocked other := by
  by_cases same : other = thread
  · have present := Finset.disjoint_right.mp cond.apart awake
    simp [leave, Blocked, same, present]
  · simp [leave, Blocked, same]

/-- A thread may fall asleep where no token is left. -/
theorem covers_wait : (cond.wait thread).Covers 0 slack := by
  intro asleep
  exact Nat.zero_le _

theorem woken_card_wake (sleepers : chosen ⊆ cond.waiting) :
    (cond.wake chosen).woken.card = cond.woken.card + chosen.card := by
  have disjoint : Disjoint cond.woken (cond.waiting ∩ chosen) :=
    (cond.apart.mono_left Finset.inter_subset_left).symm
  unfold wake
  rw [Finset.card_union_of_disjoint disjoint, Finset.inter_eq_right.mpr sleepers]

theorem Covers.wake (covers : cond.Covers tokens slack) (sleepers : chosen ⊆ cond.waiting) :
    (cond.wake chosen).Covers tokens slack := by
  intro asleep
  have before := covers (asleep.mono Finset.sdiff_subset)
  rw [woken_card_wake sleepers]
  omega

/-- The notification pays for the token that was added before it. -/
theorem Covers.notify (covers : cond.Covers tokens (slack + 1)) (notifies : cond.Notifies chosen) :
    (cond.wake chosen).Covers tokens slack := by
  intro asleep
  have sleepers : cond.waiting.Nonempty := asleep.mono Finset.sdiff_subset
  have before := covers sleepers
  have some : 0 < chosen.card := Finset.card_pos.mpr (notifies.2 sleepers)
  rw [woken_card_wake notifies.1]
  omega

/-- The thread that leaves is accounted for by one more unit of slack. -/
theorem Covers.leave (covers : cond.Covers tokens slack) :
    (cond.leave thread).Covers tokens (slack + 1) := by
  intro asleep
  have before := covers asleep
  have erased : cond.woken.card - 1 ≤ (cond.woken.erase thread).card :=
    Finset.pred_card_le_card_erase
  simp only [ConditionVariable.leave]
  omega

end ConditionVariable

end DmLockFree.Library
