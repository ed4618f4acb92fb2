import DmLockFree.Library.Loan
import DmLockFree.Library.Machine
import DmLockFree.RapidPool.Renumber
import Mathlib.Order.Bounds.Basic

/-! One chunk over a whole history of calls: its free list has exactly the free
slots, the one that was released last in front, and then those that were never
fetched. -/

set_option autoImplicit false

namespace DmLockFree.CDMRapidPool

open Library

variable {S : Nat} {asserts : Bool} {wIndex : UInt16}

/-- A release names a slot of this chunk. -/
inductive Call (S : Nat) where
  | fetch
  | release (slot : Fin S)
  deriving DecidableEq, Repr

inductive Outcome where
  | fetched (slot : Option Nat)
  | released (slot : Nat)
  | stopped (stop : Stop)
  deriving DecidableEq, Repr

/-- All calls on one chunk. No call follows one that stops the program. -/
def client (S : Nat) (asserts : Bool) (wIndex : UInt16) :
    Machine (Option (CDMRapidPool S)) (Call S) Outcome where
  start := some (.construct S wIndex)
  step
    | none, _ => none
    | some pool, .fetch =>
        match pool.fetchObj asserts with
        | .ok (slot, pool) => some (some pool, .fetched slot)
        | .error stop => some (none, .stopped stop)
    | some pool, .release slot =>
        match pool.releaseSlot asserts slot.val with
        | .ok pool => some (some pool, .released slot.val)
        | .error stop => some (none, .stopped stop)

def Outcome.loan : Outcome → Option (Loan Nat)
  | .fetched (some slot) => some (.taken slot)
  | .released slot => some (.returned slot)
  | _ => none

/-- The objects that were handed out and taken back. -/
def loans (outcomes : List Outcome) : List (Loan Nat) := outcomes.filterMap Outcome.loan

/-- The slots from `m_wFirstFlag` on, `m_qwFreeCount` of them, and the index behind them. -/
def chain (pool : CDMRapidPool S) : List Nat × Nat :=
  follow pool.link pool.qwFreeCount.toNat pool.wFirstFlag.toNat

structure FreeListed (pool : CDMRapidPool S) : Prop where
  stop : pool.chain.2 = S
  distinct : pool.chain.1.Nodup
  inside : ∀ slot, slot ∈ pool.chain.1 → slot < S
  free : ∀ slot, slot < S → ∃ p, pool.stRapidData[slot]? = some p ∧
    (p.dwUse = false ↔ slot ∈ pool.chain.1)

/-- Which slot the next fetch should return. -/
def NextFree (history : List (Loan Nat)) (slot : Nat) : Prop :=
  Loan.LastBack history slot ∨
    (∀ other, ¬Loan.Back history other) ∧ IsLeast {slot | .taken slot ∉ history} slot

/-- The free slots are those that are back, the last one first, and then those
that were never fetched. -/
structure Accounted (S : Nat) (history : List (Loan Nat)) (free : List Nat) : Prop where
  parts : ∃ back fetched, free = back ++ List.range' fetched (S - fetched) ∧ fetched ≤ S ∧
    Loan.Recent history back ∧ ∀ slot, .taken slot ∈ history ↔ slot < fetched
  count : history.countP Loan.isTaken + free.length =
    S + history.countP fun loan => !loan.isTaken

namespace Accounted

variable {history : List (Loan Nat)} {free rest : List Nat} {slot : Nat}

theorem start : Accounted S [] (List.range S) where
  parts := ⟨[], 0, List.range_eq_range', Nat.zero_le S, .start, by simp⟩
  count := by simp

theorem count_taken (accounted : Accounted S history (slot :: rest)) :
    (history ++ [Loan.taken slot]).countP Loan.isTaken + rest.length =
      S + (history ++ [Loan.taken slot]).countP fun loan => !loan.isTaken := by
  have count := accounted.count
  simp only [List.countP_append, List.countP_singleton, Loan.isTaken, List.length_cons] at count ⊢
  simp only [Bool.not_true, Bool.false_eq_true, if_true, if_false]
  omega

theorem fetch (accounted : Accounted S history (slot :: rest)) (inside : slot < S)
    (once : slot ∉ rest) :
    NextFree history slot ∧ Accounted S (history ++ [.taken slot]) rest := by
  obtain ⟨back, fetched, same, bound, recent, taken⟩ := accounted.parts
  have takes : ∀ other,
      .taken other ∈ history ++ [.taken slot] ↔ other < fetched ∨ other = slot := by
    intro other
    rw [List.mem_append, taken, List.mem_singleton, Loan.taken.injEq]
  cases back with
  | nil =>
      -- Nothing is back: the lowest slot that was never fetched is next.
      obtain ⟨left, more⟩ : ∃ left, S - fetched = left + 1 := by
        cases remaining : S - fetched with
        | zero =>
            rw [remaining] at same
            cases same
        | succ left => exact ⟨left, rfl⟩
      rw [more, List.nil_append, List.range'_succ, List.cons.injEq] at same
      obtain ⟨rfl, rfl⟩ := same
      refine ⟨.inr ⟨fun other => recent.none, ?_, ?_⟩, ?_, accounted.count_taken⟩
      · show .taken slot ∉ history
        rw [taken]
        exact Nat.lt_irrefl slot
      · intro other fresh
        rw [Set.mem_ofPred_eq, taken] at fresh
        exact Nat.le_of_not_lt fresh
      · refine ⟨[], slot + 1, ?_, inside, recent.takeNew, ?_⟩
        · rw [List.nil_append, show S - (slot + 1) = left by omega]
        · intro other
          rw [takes]
          omega
  | cons top below =>
      rw [List.cons_append, List.cons.injEq] at same
      obtain ⟨rfl, rfl⟩ := same
      have known : slot < fetched := by
        by_contra beyond
        apply once
        rw [List.mem_append, List.mem_range'_1]
        exact .inr (by omega)
      refine ⟨.inl recent.last, ?_, accounted.count_taken⟩
      refine ⟨below, fetched, rfl, bound, ?_, ?_⟩
      · apply recent.pop
        intro member
        exact once (List.mem_append_left _ member)
      · intro other
        rw [takes]
        omega

theorem release (accounted : Accounted S history free) :
    Accounted S (history ++ [.returned slot]) (slot :: free) := by
  obtain ⟨back, fetched, rfl, bound, recent, taken⟩ := accounted.parts
  constructor
  · refine ⟨slot :: back, fetched, rfl, bound, recent.push, ?_⟩
    intro other
    rw [← taken, List.mem_append, List.mem_singleton]
    exact or_iff_left nofun
  · have count := accounted.count
    simp only [List.countP_append, List.countP_singleton, Loan.isTaken, List.length_cons] at count ⊢
    simp only [Bool.not_false, Bool.false_eq_true, if_true, if_false]
    omega

theorem full_iff (accounted : Accounted S history free) (positive : 1 ≤ S) :
    Loan.outstanding history = S ↔ free = [] := by
  have count := accounted.count
  rw [Loan.outstanding, ← List.length_eq_zero_iff]
  omega

theorem taken_of_used (accounted : Accounted S history free) (inside : slot < S)
    (used : slot ∉ free) : .taken slot ∈ history := by
  obtain ⟨back, fetched, rfl, bound, recent, taken⟩ := accounted.parts
  rw [taken]
  by_contra beyond
  apply used
  rw [List.mem_append, List.mem_range'_1]
  exact .inr (by omega)

/-- A slot that was fetched before heads the free list when it came back last. -/
theorem lastBack_iff (accounted : Accounted S history free) (known : .taken slot ∈ history) :
    Loan.LastBack history slot ↔ ∃ rest, free = slot :: rest := by
  obtain ⟨back, fetched, rfl, bound, recent, taken⟩ := accounted.parts
  cases back with
  | nil =>
      constructor
      · intro last
        exact absurd last.back recent.none
      · rintro ⟨rest, same⟩
        have member : slot ∈ List.range' fetched (S - fetched) := by
          rw [← List.nil_append (List.range' ..), same]
          exact List.mem_cons_self
        have low := (taken slot).mp known
        have high := (List.mem_range'_1.mp member).1
        omega
  | cons top below =>
      constructor
      · intro last
        rw [last.unique recent.last]
        exact ⟨_, List.cons_append⟩
      · rintro ⟨rest, same⟩
        cases same
        exact recent.last

end Accounted

/-- What is known of a chunk after a history of calls. -/
def Known (wIndex : UInt16) (outcomes : List Outcome) (state : Option (CDMRapidPool S)) : Prop :=
  ∀ pool, state = some pool →
    ∃ free, Stacked wIndex free pool ∧ Accounted S (loans outcomes) free

section Runs

variable {state after : Option (CDMRapidPool S)} {outcomes : List Outcome} {call : Call S}
  {outcome : Outcome} {pool : CDMRapidPool S} {free : List Nat}

theorem loans_snoc : loans (outcomes ++ [outcome]) = loans outcomes ++ outcome.loan.toList := by
  rw [loans, List.filterMap_append]
  cases outcome with
  | fetched slot => cases slot <;> rfl
  | released slot => rfl
  | stopped stop => rfl

theorem step_known (size : S < 65535) (low : asserts = true → wIndex.toNat < 2 ^ 15)
    (known : Known wIndex outcomes state)
    (taken : (client S asserts wIndex).step state call = some (after, outcome)) :
    Known wIndex (outcomes ++ [outcome]) after := by
  intro later same
  subst same
  cases state with
  | none => cases taken
  | some pool =>
      obtain ⟨free, stacked, accounted⟩ := known pool rfl
      rw [loans_snoc]
      cases call with
      | fetch =>
          cases free with
          | nil =>
              simp only [client, stacked.fetchObj_none] at taken
              cases taken
              refine ⟨[], stacked, ?_⟩
              show Accounted S (loans outcomes ++ []) []
              rw [List.append_nil]
              exact accounted
          | cons slot rest =>
              obtain ⟨next, fetched, popped⟩ := stacked.fetchObj low
              have inside := stacked.stack.inside slot List.mem_cons_self
              have once := (List.nodup_cons.mp stacked.stack.nodup).1
              simp only [client, fetched] at taken
              cases taken
              exact ⟨rest, popped, (accounted.fetch inside once).2⟩
      | release slot =>
          by_cases unused : slot.val ∈ free
          · simp only [client, stacked.releaseSlot_abort unused] at taken
            cases taken
          · obtain ⟨next, released, pushed⟩ := stacked.releaseSlot size low slot.isLt unused
            simp only [client, released] at taken
            cases taken
            exact ⟨slot.val :: free, pushed, accounted.release⟩

theorem run_known (size : S < 65535) (low : asserts = true → wIndex.toNat < 2 ^ 15)
    (run : (client S asserts wIndex).Run outcomes state) : Known wIndex outcomes state := by
  apply run.invariant (Known wIndex)
  · intro pool same
    cases same
    exact ⟨List.range S, .construct size, .start⟩
  · intro outcomes state after call outcome known taken
    exact step_known size low known taken

end Runs

theorem Stacked.freeListed {free : List Nat} {pool : CDMRapidPool S}
    (stacked : Stacked wIndex free pool) : FreeListed pool := by
  have chain : pool.chain = (free, S) := by
    have linked := stacked.stack.linked
    rw [renumber_link] at linked
    have count : pool.qwFreeCount.toNat = free.length := stacked.stack.count
    rw [CDMRapidPool.chain, count]
    exact linked.follow_eq
  constructor
  case stop => rw [chain]
  case distinct =>
      rw [chain]
      exact stacked.stack.nodup
  case inside =>
      rw [chain]
      exact stacked.stack.inside
  case free =>
      intro slot inside
      rw [chain]
      exact stacked.header inside

/-- In every run the free list of a chunk is its free slots, no call changes the
number in a header, `FetchObj` does not stop and takes the slot that was released
last, and `ReleaseObj` aborts exactly for a slot that is not in use. -/
theorem free_list_of_history {S : Nat} {asserts : Bool} {wIndex : UInt16} {outcomes : List Outcome}
    {pool : CDMRapidPool S} (size : S < 65535) (low : asserts = true → wIndex.toNat < 2 ^ 15)
    (run : (client S asserts wIndex).Run outcomes (some pool)) :
    FreeListed pool ∧
      pool.indices = List.replicate S (wIndex.toBitVec.setWidth 15) ∧
      (∀ stop, pool.fetchObj asserts ≠ .error stop) ∧
      (∀ slot, slot < S → ∃ p, pool.stRapidData[slot]? = some p ∧
        (pool.releaseSlot asserts slot = .error .abort ↔ p.dwUse = false) ∧
        (p.dwUse = true → ∃ after, pool.releaseSlot asserts slot = .ok after)) ∧
      (Loan.outstanding (loans outcomes) < S → ∃ slot after,
        pool.fetchObj asserts = .ok (some slot, after) ∧ NextFree (loans outcomes) slot) := by
  obtain ⟨free, stacked, accounted⟩ := run_known size low run pool rfl
  refine ⟨stacked.freeListed, stacked.indices, ?_, ?_, ?_⟩
  · intro stop stopped
    cases free with
    | nil =>
        rw [stacked.fetchObj_none] at stopped
        cases stopped
    | cons slot rest =>
        obtain ⟨after, fetched, _⟩ := stacked.fetchObj low
        rw [fetched] at stopped
        cases stopped
  · intro slot inside
    obtain ⟨p, found, unused⟩ := stacked.header inside
    refine ⟨p, found, ?_, ?_⟩
    · constructor
      · intro aborted
        rw [unused]
        by_contra used
        obtain ⟨after, released, _⟩ := stacked.releaseSlot size low inside used
        rw [released] at aborted
        cases aborted
      · intro free
        exact stacked.releaseSlot_abort (unused.mp free)
    · intro inUse
      have used : slot ∉ free := by
        intro member
        rw [unused.mpr member] at inUse
        cases inUse
      obtain ⟨after, released, _⟩ := stacked.releaseSlot size low inside used
      exact ⟨after, released⟩
  · intro fewer
    have count := accounted.count
    cases free with
    | nil =>
        rw [Loan.outstanding] at fewer
        rw [List.length_nil] at count
        omega
    | cons slot rest =>
        obtain ⟨after, fetched, _⟩ := stacked.fetchObj low
        have inside := stacked.stack.inside slot List.mem_cons_self
        have once := (List.nodup_cons.mp stacked.stack.nodup).1
        exact ⟨slot, after, fetched, (accounted.fetch inside once).1⟩

/-- Three slots, two of which are back in reverse order. -/
def reversed : List (Call 4) := [.fetch, .fetch, .fetch, .release 2, .release 0]

theorem free_list_of_history_reversed :
    ∃ (outcomes : List Outcome) (pool : CDMRapidPool 4),
      (client 4 true 7).Run outcomes (some pool) ∧ pool.chain = ([0, 2, 3], 4) ∧
        FreeListed pool := by
  have run := Machine.exec_run (client 4 true 7) reversed rfl
  exact ⟨_, _, run, rfl, (free_list_of_history (by decide) (by decide) run).1⟩

end DmLockFree.CDMRapidPool
