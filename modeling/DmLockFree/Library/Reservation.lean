import Mathlib.Algebra.BigOperators.Group.List.Basic
import Mathlib.Algebra.GroupWithZero.Nat
import Mathlib.Order.Basic

/-!
# Optimistic reservations

Takers of numbered items reserve an amount first and look at the supply only
afterwards. A taker whose reservation the supply does not cover gives it back.
The bound of a ticket is how many items were taken or reserved, as far as its
taker knows, when it was drawn.
-/

set_option autoImplicit false

namespace DmLockFree.Library

/-- The excess is the part of a reservation that the supply did not cover. -/
structure Ticket (Name : Type) where
  name : Name
  bound : Nat
  amount : Nat
  excess : Nat
  granted : Bool

namespace Ticket

variable {Name : Type}

def weight (ticket : Ticket Name) : Nat := ticket.amount + ticket.excess

/-- The amounts of some tickets. -/
def total (tickets : List (Ticket Name)) : Nat := (tickets.map amount).sum

def load (tickets : List (Ticket Name)) : Nat := (tickets.map weight).sum

section Totals

variable (ticket : Ticket Name) (first second : List (Ticket Name))

@[simp] theorem total_nil : total ([] : List (Ticket Name)) = 0 := rfl

@[simp] theorem load_nil : load ([] : List (Ticket Name)) = 0 := rfl

@[simp] theorem total_cons : total (ticket :: first) = ticket.amount + total first := by
  simp [total]

@[simp] theorem load_cons : load (ticket :: first) = ticket.weight + load first := by
  simp [load]

@[simp] theorem total_append : total (first ++ second) = total first + total second := by
  simp [total]

@[simp] theorem load_append : load (first ++ second) = load first + load second := by
  simp [load]

theorem total_le_load : total first ≤ load first := by
  induction first with
  | nil => exact Nat.le_refl 0
  | cons ticket rest ih =>
      rw [total_cons, load_cons]
      exact Nat.add_le_add (Nat.le_add_right ..) ih

end Totals

/-- Every bound covers what is before its ticket. -/
def Bounded : Nat → List (Ticket Name) → Prop
  | _, [] => True
  | base, ticket :: rest => base ≤ ticket.bound ∧ Bounded (base + ticket.amount) rest

theorem Bounded.mono {base less : Nat} {tickets : List (Ticket Name)}
    (bounded : Bounded base tickets) (fewer : less ≤ base) : Bounded less tickets := by
  induction tickets generalizing base less with
  | nil => trivial
  | cons ticket rest ih =>
      obtain ⟨covers, bounded⟩ := bounded
      exact ⟨Nat.le_trans fewer covers, ih bounded (Nat.add_le_add_right fewer _)⟩

theorem Bounded.append {base : Nat} {first second : List (Ticket Name)} :
    Bounded base (first ++ second) ↔ Bounded base first ∧ Bounded (base + total first) second := by
  induction first generalizing base with
  | nil => simp [Bounded]
  | cons ticket rest ih =>
      rw [List.cons_append, Bounded, Bounded, ih, total_cons, Nat.add_assoc, and_assoc]

theorem Bounded.remove {base : Nat} {first second : List (Ticket Name)} {ticket : Ticket Name}
    (bounded : Bounded base (first ++ ticket :: second)) : Bounded base (first ++ second) := by
  rw [Bounded.append] at bounded ⊢
  obtain ⟨before, _, after⟩ := bounded
  exact ⟨before, after.mono (Nat.le_add_right ..)⟩

section Names

variable [DecidableEq Name] {name other : Name} {first middle second : List (Ticket Name)}

/-- The tickets of one taker. -/
def named (name : Name) (tickets : List (Ticket Name)) : List (Ticket Name) :=
  tickets.filter fun ticket => ticket.name = name

theorem named_append : named name (first ++ second) = named name first ++ named name second :=
  List.filter_append ..

theorem mem_named {tickets : List (Ticket Name)} {ticket : Ticket Name} :
    ticket ∈ named name tickets ↔ ticket ∈ tickets ∧ ticket.name = name := by
  simp [named]

theorem named_eq_nil {tickets : List (Ticket Name)}
    (others : ∀ ticket ∈ tickets, ticket.name ≠ name) : named name tickets = [] := by
  simpa [named] using others

theorem named_eq_self {tickets : List (Ticket Name)}
    (own : ∀ ticket ∈ tickets, ticket.name = name) : named name tickets = tickets := by
  simpa [named] using own

/-- Where the only ticket of a taker is. -/
theorem split_named {tickets : List (Ticket Name)} {ticket : Ticket Name}
    (only : named name tickets = [ticket]) :
    ∃ first second, tickets = first ++ ticket :: second ∧ ticket.name = name ∧
      named name first = [] ∧ named name second = [] := by
  have member : ticket ∈ named name tickets := by simp [only]
  obtain ⟨member, own⟩ := mem_named.mp member
  obtain ⟨first, second, rfl⟩ := List.append_of_mem member
  refine ⟨first, second, rfl, own, ?_⟩
  have whole := congrArg List.length only
  have here : named name (ticket :: second) = ticket :: named name second := by
    simp [named, own]
  rw [named_append, here, List.length_append, List.length_cons, List.length_singleton] at whole
  exact ⟨List.length_eq_zero_iff.mp (by omega), List.length_eq_zero_iff.mp (by omega)⟩

/-- A taker exchanges its tickets. -/
theorem named_exchange {old new : List (Ticket Name)} (before : named name first = [])
    (after : named name second = []) (own : ∀ ticket ∈ new, ticket.name = name) :
    named name (first ++ new ++ second) = new ∧
      ∀ other, other ≠ name → (∀ ticket ∈ old, ticket.name = name) →
        named other (first ++ new ++ second) = named other (first ++ old ++ second) := by
  constructor
  · rw [named_append, named_append, before, after, named_eq_self own, List.nil_append,
      List.append_nil]
  · intro other apart mine
    have none : ∀ {some : List (Ticket Name)}, (∀ ticket ∈ some, ticket.name = name) →
        named other some = [] := fun own =>
      named_eq_nil fun ticket member same => apart (same.symm.trans (own ticket member))
    rw [named_append, named_append, named_append, named_append, none own, none mine]

end Names

end Ticket

open Ticket

/-- The supply covers what is taken and a first part of the tickets; every later
ticket has a bound that covers all before it. -/
structure Backed {Name : Type} (taken supply : Nat) (old new : List (Ticket Name)) : Prop where
  covered : taken + total old ≤ supply
  bounded : Bounded (taken + total old) new
  pending : ∀ ticket ∈ new, ticket.granted = false

/-- The tickets in the order in which they were drawn. -/
def Reserved {Name : Type} (taken supply : Nat) (tickets : List (Ticket Name)) : Prop :=
  ∃ old new, tickets = old ++ new ∧ Backed taken supply old new

namespace Reserved

variable {Name : Type} {taken supply more : Nat} {tickets first second : List (Ticket Name)}
  {ticket : Ticket Name}

theorem none (enough : taken ≤ supply) : Reserved taken supply ([] : List (Ticket Name)) :=
  ⟨[], [], rfl, enough, trivial, nofun⟩

theorem taken_le (reserved : Reserved taken supply tickets) : taken ≤ supply := by
  obtain ⟨old, new, _, backed⟩ := reserved
  exact Nat.le_trans (Nat.le_add_right ..) backed.covered

theorem supply_mono (reserved : Reserved taken supply tickets) (grows : supply ≤ more) :
    Reserved taken more tickets := by
  obtain ⟨old, new, rfl, backed⟩ := reserved
  exact ⟨old, new, rfl, Nat.le_trans backed.covered grows, backed.bounded, backed.pending⟩

/-- A new ticket, drawn after all others. -/
theorem draw (reserved : Reserved taken supply tickets) (pending : ticket.granted = false)
    (bound : taken + total tickets ≤ ticket.bound) :
    Reserved taken supply (tickets ++ [ticket]) := by
  obtain ⟨old, new, rfl, backed⟩ := reserved
  refine ⟨old, new ++ [ticket], List.append_assoc .., backed.covered, ?_, ?_⟩
  · rw [Bounded.append]
    refine ⟨backed.bounded, ?_, trivial⟩
    rw [total_append] at bound
    omega
  · intro other member
    rcases List.mem_append.mp member with before | last
    · exact backed.pending other before
    · rw [List.mem_singleton.mp last]
      exact pending

/-- A ticket is among those that the supply covers, or later. -/
theorem locate (reserved : Reserved taken supply (first ++ ticket :: second)) :
    (∃ rest new, second = rest ++ new ∧ Backed taken supply (first ++ ticket :: rest) new) ∨
      ∃ old rest, first = old ++ rest ∧ Backed taken supply old (rest ++ ticket :: second) := by
  obtain ⟨old, new, whole, backed⟩ := reserved
  rcases List.append_eq_append_iff.mp whole with ⟨rest, rfl, split⟩ | ⟨rest, rfl, rfl⟩
  · cases rest with
    | nil =>
        rw [List.append_nil] at backed
        rw [List.nil_append] at split
        subst split
        exact .inr ⟨first, [], (List.append_nil first).symm, backed⟩
    | cons other rest =>
        cases split
        exact .inl ⟨rest, new, rfl, backed⟩
  · exact .inr ⟨old, rest, rfl, backed⟩

/-- A ticket that is given back. -/
theorem drop (reserved : Reserved taken supply (first ++ ticket :: second)) :
    Reserved taken supply (first ++ second) := by
  rcases reserved.locate with ⟨rest, new, rfl, backed⟩ | ⟨old, rest, rfl, backed⟩
  · have covered := backed.covered
    have bounded := backed.bounded
    simp only [total_append, total_cons] at covered bounded
    refine ⟨first ++ rest, new, (List.append_assoc ..).symm, ?_, bounded.mono ?_, backed.pending⟩
    · rw [total_append]
      omega
    · rw [total_append]
      omega
  · refine ⟨old, rest ++ second, List.append_assoc .., backed.covered, backed.bounded.remove,
      fun other member => backed.pending other ?_⟩
    rcases List.mem_append.mp member with before | after
    · exact List.mem_append_left _ before
    · exact List.mem_append_right _ (List.mem_cons_of_mem _ after)

/-- A ticket whose bound is below the supply gets what is left, at most its amount. -/
theorem grant (reserved : Reserved taken supply (first ++ ticket :: second))
    {after : Ticket Name} (fits : after.amount ≤ ticket.amount)
    (left : ticket.bound + after.amount ≤ supply) :
    Reserved taken supply (first ++ after :: second) := by
  rcases reserved.locate with ⟨rest, new, rfl, backed⟩ | ⟨old, rest, rfl, backed⟩
  · have covered := backed.covered
    have bounded := backed.bounded
    simp only [total_append, total_cons] at covered bounded
    refine ⟨first ++ after :: rest, new, by simp, ?_, bounded.mono ?_, backed.pending⟩
    · simp only [total_append, total_cons]
      omega
    · simp only [total_append, total_cons]
      omega
  · have bounded := backed.bounded
    rw [Bounded.append] at bounded
    obtain ⟨_, bound, later⟩ := bounded
    refine ⟨old ++ rest ++ [after], second, by simp, ?_, later.mono ?_, fun other member =>
      backed.pending other (List.mem_append_right _ (List.mem_cons_of_mem _ member))⟩
    · simp only [total_append, total_cons, total_nil]
      omega
    · simp only [total_append, total_cons, total_nil]
      omega

/-- What a granted ticket stands for is taken. -/
theorem take (reserved : Reserved taken supply (first ++ ticket :: second))
    (granted : ticket.granted = true) :
    Reserved (taken + ticket.amount) supply (first ++ second) := by
  rcases reserved.locate with ⟨rest, new, rfl, backed⟩ | ⟨old, rest, rfl, backed⟩
  · have covered := backed.covered
    have bounded := backed.bounded
    simp only [total_append, total_cons] at covered bounded
    refine ⟨first ++ rest, new, (List.append_assoc ..).symm, ?_, bounded.mono ?_, backed.pending⟩
    · rw [total_append]
      omega
    · rw [total_append]
      omega
  · have waits := backed.pending ticket (List.mem_append_right _ List.mem_cons_self)
    rw [granted] at waits
    cases waits

/-- A granted ticket is covered by the supply. -/
theorem granted_le (reserved : Reserved taken supply (first ++ ticket :: second))
    (granted : ticket.granted = true) : taken + ticket.amount ≤ supply :=
  (reserved.take granted).taken_le

/-- Only amounts, bounds and grants matter. -/
theorem settle (reserved : Reserved taken supply (first ++ ticket :: second))
    {after : Ticket Name} (amount : after.amount = ticket.amount)
    (bound : after.bound = ticket.bound) (granted : after.granted = ticket.granted) :
    Reserved taken supply (first ++ after :: second) := by
  rcases reserved.locate with ⟨rest, new, rfl, backed⟩ | ⟨old, rest, rfl, backed⟩
  · refine ⟨first ++ after :: rest, new, by simp, ?_, ?_, backed.pending⟩
    · simpa only [total_append, total_cons, amount] using backed.covered
    · simpa only [total_append, total_cons, amount] using backed.bounded
  · refine ⟨old, rest ++ after :: second, by simp, backed.covered, ?_, fun other member => ?_⟩
    · simpa only [Bounded.append, Bounded, amount, bound] using backed.bounded
    · rcases List.mem_append.mp member with before | here
      · exact backed.pending other (List.mem_append_left _ before)
      · rcases List.mem_cons.mp here with rfl | later
        · rw [granted]
          exact backed.pending ticket (List.mem_append_right _ List.mem_cons_self)
        · exact backed.pending other (List.mem_append_right _ (List.mem_cons_of_mem _ later))

end Reserved

end DmLockFree.Library
