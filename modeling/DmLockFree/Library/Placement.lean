import Mathlib.Algebra.BigOperators.Group.Finset.Basic
import Mathlib.Algebra.BigOperators.Group.Finset.Piecewise
import Mathlib.Algebra.Order.BigOperators.Group.Finset
import Mathlib.Data.Fintype.Basic

/-!
# Tokens on ranked places

A placement says how many copies of each token lie on each place. A step leaves
it alone, lets one token in, or moves one token to a place of higher rank.
Such steps neither lose nor duplicate a token, and a token that is present once
only climbs.
-/

set_option autoImplicit false

namespace DmLockFree.Library

abbrev Placement (Place Token : Type) := Place → Token → Nat

namespace Placement

variable {Place Token : Type} [DecidableEq Place] [DecidableEq Token]

def single (place : Place) (token : Token) : Placement Place Token :=
  fun other candidate => if other = place ∧ candidate = token then 1 else 0

@[simp] theorem single_self (place : Place) (token : Token) :
    single place token place token = 1 := by
  simp [single]

@[simp] theorem single_of_place_ne {place other : Place} (apart : other ≠ place)
    (token candidate : Token) : single place token other candidate = 0 := by
  simp [single, apart]

@[simp] theorem single_of_token_ne {token candidate : Token} (apart : candidate ≠ token)
    (place other : Place) : single place token other candidate = 0 := by
  simp [single, apart]

/-- One step from `before` to `after`; the option is the token that enters. -/
inductive Moves (rank : Place → Nat) (before after : Placement Place Token) :
    Option Token → Prop where
  | stay (same : ∀ place candidate, after place candidate = before place candidate) :
      Moves rank before after none
  | enter (place : Place) (token : Token)
      (gains : ∀ other candidate,
        after other candidate = before other candidate + single place token other candidate) :
      Moves rank before after (some token)
  | move (source target : Place) (token : Token) (climbs : rank source < rank target)
      (shifts : ∀ other candidate,
        after other candidate + single source token other candidate =
          before other candidate + single target token other candidate) :
      Moves rank before after none

variable [Fintype Place]

def total (placement : Placement Place Token) (token : Token) : Nat :=
  ∑ place, placement place token

theorem total_single (place : Place) (token candidate : Token) :
    total (single place token) candidate = if candidate = token then 1 else 0 := by
  simp only [total, single]
  by_cases same : candidate = token
  · simp [same]
  · simp [same]

omit [DecidableEq Token] in
/-- A token that is present at most once lies on one place. -/
theorem place_unique {placement : Placement Place Token} {token : Token} {first second : Place}
    (once : total placement token ≤ 1) (onFirst : 0 < placement first token)
    (onSecond : 0 < placement second token) : first = second := by
  by_contra different
  have both : ∑ place ∈ {first, second}, placement place token ≤ total placement token :=
    Finset.sum_le_univ_sum_of_nonneg fun _ => Nat.zero_le _
  rw [Finset.sum_pair different] at both
  omega

omit [DecidableEq Place] [DecidableEq Token] in
theorem le_total {placement : Placement Place Token} (place : Place) (token : Token) :
    placement place token ≤ total placement token :=
  Finset.single_le_sum (f := fun other => placement other token)
    (fun _ _ => Nat.zero_le _) (Finset.mem_univ place)

omit [DecidableEq Place] [DecidableEq Token] in
theorem total_pos {placement : Placement Place Token} {place : Place} {token : Token}
    (held : 0 < placement place token) : 0 < total placement token :=
  held.trans_le (le_total place token)

omit [DecidableEq Place] [DecidableEq Token] in
theorem exists_place {placement : Placement Place Token} {token : Token}
    (present : 0 < total placement token) : ∃ place, 0 < placement place token := by
  obtain ⟨place, _, holds⟩ := Finset.exists_ne_zero_of_sum_ne_zero present.ne'
  exact ⟨place, Nat.pos_of_ne_zero holds⟩

omit [DecidableEq Place] [DecidableEq Token] in
theorem absent {placement : Placement Place Token} {token : Token}
    (nowhere : total placement token = 0) (place : Place) : placement place token = 0 :=
  Nat.le_zero.mp ((le_total place token).trans_eq nowhere)

omit [DecidableEq Token] in
/-- A token that is present exactly once is on one place and on no other. -/
theorem exists_unique_place {placement : Placement Place Token} {token : Token}
    (once : total placement token = 1) :
    ∃ place, placement place token = 1 ∧ ∀ other, other ≠ place → placement other token = 0 := by
  obtain ⟨place, held⟩ := exists_place (once ▸ Nat.one_pos)
  refine ⟨place, le_antisymm ((le_total place token).trans_eq once) held, fun other apart => ?_⟩
  by_contra present
  exact apart (place_unique once.le (Nat.pos_of_ne_zero present) held)

variable {rank : Place → Nat} {before after : Placement Place Token} {entered : Option Token}

theorem Moves.total_eq (moves : Moves rank before after entered) (token : Token) :
    total after token = total before token + if entered = some token then 1 else 0 := by
  cases moves with
  | stay same => simp [total, same]
  | enter place arrived gains =>
      have sums : total after token = total before token + total (single place arrived) token := by
        simp only [total, gains, Finset.sum_add_distrib]
      rw [sums, total_single]
      simp only [Option.some.injEq, eq_comm]
  | move source target moved climbs shifts =>
      have sums : total after token + total (single source moved) token =
          total before token + total (single target moved) token := by
        simp only [total, ← Finset.sum_add_distrib, shifts]
      rw [total_single, total_single] at sums
      simpa using sums

/-- A token that was present once and does not enter again only climbs. -/
theorem Moves.rank_le (moves : Moves rank before after entered) {token : Token}
    {place later : Place} (once : total before token ≤ 1) (inside : entered ≠ some token)
    (held : 0 < before place token) (heldLater : 0 < after later token) :
    rank place ≤ rank later := by
  cases moves with
  | stay same =>
      rw [same] at heldLater
      exact (congrArg rank (place_unique once held heldLater)).le
  | enter target arrived gains =>
      have other : token ≠ arrived := fun equal => inside (by rw [equal])
      rw [gains, single_of_token_ne other] at heldLater
      exact (congrArg rank (place_unique once held heldLater)).le
  | move source target moved climbs shifts =>
      have here := shifts later token
      by_cases same : token = moved
      · subst same
        by_cases arrives : later = target
        · subst arrives
          have left := shifts source token
          have apart : source ≠ later := fun equal => climbs.ne (congrArg rank equal)
          rw [single_self, single_of_place_ne apart] at left
          have atSource : 0 < before source token := by omega
          rw [place_unique once held atSource]
          exact climbs.le
        · rw [single_of_place_ne arrives] at here
          have stays : 0 < before later token := by omega
          exact (congrArg rank (place_unique once held stays)).le
      · rw [single_of_token_ne same, single_of_token_ne same] at here
        have stays : 0 < before later token := by omega
        exact (congrArg rank (place_unique once held stays)).le

end Placement

end DmLockFree.Library
