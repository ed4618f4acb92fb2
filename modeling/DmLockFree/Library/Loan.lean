import Mathlib.Data.List.Induction

/-!
# Items that are taken and given back

A history of loans, and a stack that has the items that are back, the one that
was given back last on top.
-/

set_option autoImplicit false

namespace DmLockFree.Library

inductive Loan (Item : Type) where
  | taken (item : Item)
  | returned (item : Item)
  deriving DecidableEq, Repr

namespace Loan

variable {Item : Type} {loans : List (Loan Item)} {item other : Item} {stack : List Item}

def isTaken : Loan Item → Bool
  | .taken _ => true
  | .returned _ => false

/-- The number of items that are out. -/
def outstanding (loans : List (Loan Item)) : Nat :=
  loans.countP isTaken - loans.countP fun loan => !loan.isTaken

/-- The item was given back and has not been taken since. -/
def Back (loans : List (Loan Item)) (item : Item) : Prop :=
  ∃ earlier later, loans = earlier ++ .returned item :: later ∧ .taken item ∉ later

/-- Of the items that are back, this one was given back last. -/
def LastBack (loans : List (Loan Item)) (item : Item) : Prop :=
  ∃ earlier later, loans = earlier ++ .returned item :: later ∧ .taken item ∉ later ∧
    ∀ other, ¬Back later other

theorem not_back_nil : ¬Back [] item := by
  intro back
  obtain ⟨earlier, later, same, _⟩ := back
  cases earlier <;> cases same

theorem Back.of_returned (back : Back (loans ++ [.returned item]) other) :
    other = item ∨ Back loans other := by
  obtain ⟨earlier, later, same, untaken⟩ := back
  rcases List.eq_nil_or_concat later with rfl | ⟨middle, last, rfl⟩
  · obtain ⟨_, same⟩ := List.append_inj' same rfl
    cases same
    exact .inl rfl
  · rw [List.concat_eq_append, ← List.cons_append, ← List.append_assoc] at same
    obtain ⟨rfl, _⟩ := List.append_inj' same rfl
    refine .inr ⟨earlier, middle, rfl, ?_⟩
    intro taken
    apply untaken
    rw [List.concat_eq_append]
    exact List.mem_append_left _ taken

theorem Back.of_taken (back : Back (loans ++ [.taken item]) other) :
    other ≠ item ∧ Back loans other := by
  obtain ⟨earlier, later, same, untaken⟩ := back
  rcases List.eq_nil_or_concat later with rfl | ⟨middle, last, rfl⟩
  · obtain ⟨_, same⟩ := List.append_inj' same rfl
    cases same
  · rw [List.concat_eq_append] at same untaken
    rw [← List.cons_append, ← List.append_assoc] at same
    obtain ⟨rfl, last⟩ := List.append_inj' same rfl
    cases last
    constructor
    · intro same
      subst same
      exact untaken (List.mem_append_right _ List.mem_cons_self)
    · exact ⟨earlier, middle, rfl, fun taken => untaken (List.mem_append_left _ taken)⟩

/-- The stack has the items that are back, and above an item only those that
were given back after it. -/
structure Recent (loans : List (Loan Item)) (stack : List Item) : Prop where
  complete : ∀ item, Back loans item → item ∈ stack
  order : ∀ above item below, stack = above ++ item :: below →
    ∃ earlier later, loans = earlier ++ .returned item :: later ∧ .taken item ∉ later ∧
      ∀ other, Back later other → other ∈ above

namespace Recent

theorem start : Recent ([] : List (Loan Item)) [] where
  complete _ back := absurd back not_back_nil
  order above item below same := by
    cases above <;> cases same

theorem push (recent : Recent loans stack) :
    Recent (loans ++ [.returned item]) (item :: stack) where
  complete other back := by
    rcases back.of_returned with rfl | before
    · exact List.mem_cons_self
    · exact List.mem_cons_of_mem _ (recent.complete other before)
  order above top below same := by
    cases above with
    | nil =>
        cases same
        exact ⟨loans, [], rfl, nofun, fun other back => absurd back not_back_nil⟩
    | cons first above =>
        cases same
        obtain ⟨earlier, later, rfl, untaken, since⟩ := recent.order above top below rfl
        refine ⟨earlier, later ++ [.returned item], by simp, ?_, ?_⟩
        · intro taken
          rcases List.mem_append.mp taken with old | new
          · exact untaken old
          · cases List.mem_singleton.mp new
        · intro other back
          rcases back.of_returned with rfl | before
          · exact List.mem_cons_self
          · exact List.mem_cons_of_mem _ (since other before)

theorem pop (recent : Recent loans (item :: stack)) (once : item ∉ stack) :
    Recent (loans ++ [.taken item]) stack where
  complete other back := by
    obtain ⟨apart, before⟩ := back.of_taken
    exact (List.mem_cons.mp (recent.complete other before)).resolve_left apart
  order above top below same := by
    obtain ⟨earlier, later, rfl, untaken, since⟩ :=
      recent.order (item :: above) top below (by rw [same, List.cons_append])
    refine ⟨earlier, later ++ [.taken item], by simp, ?_, ?_⟩
    · intro taken
      rcases List.mem_append.mp taken with old | new
      · exact untaken old
      · cases List.mem_singleton.mp new
        rw [same] at once
        exact once (List.mem_append_right _ List.mem_cons_self)
    · intro other back
      obtain ⟨apart, before⟩ := back.of_taken
      exact (List.mem_cons.mp (since other before)).resolve_left apart

theorem takeNew (recent : Recent loans []) : Recent (loans ++ [.taken item]) [] where
  complete other back := recent.complete other back.of_taken.2
  order above top below same := by
    cases above <;> cases same

/-- The item that is taken may lie anywhere in the stack. -/
theorem take [DecidableEq Item] (recent : Recent loans stack) :
    Recent (loans ++ [.taken item]) (stack.filter fun other => other ≠ item) where
  complete other back := by
    obtain ⟨apart, before⟩ := back.of_taken
    exact List.mem_filter.mpr ⟨recent.complete other before, decide_eq_true apart⟩
  order above top below same := by
    obtain ⟨front, behind, rfl, rfl, lower⟩ := List.filter_eq_append_iff.mp same
    obtain ⟨skipped, rest, rfl, out, apart, rfl⟩ := List.filter_eq_cons_iff.mp lower
    obtain ⟨earlier, later, rfl, untaken, since⟩ :=
      recent.order (front ++ skipped) top rest (List.append_assoc ..).symm
    refine ⟨earlier, later ++ [.taken item], by simp, ?_, ?_⟩
    · intro taken
      rcases List.mem_append.mp taken with old | new
      · exact untaken old
      · cases List.mem_singleton.mp new
        exact of_decide_eq_true apart rfl
    · intro other back
      obtain ⟨different, before⟩ := back.of_taken
      rcases List.mem_append.mp (since other before) with high | low
      · exact List.mem_filter.mpr ⟨high, decide_eq_true different⟩
      · exact absurd (decide_eq_true different) (out other low)

theorem last (recent : Recent loans (item :: stack)) : LastBack loans item := by
  obtain ⟨earlier, later, same, untaken, since⟩ := recent.order [] item stack rfl
  refine ⟨earlier, later, same, untaken, ?_⟩
  intro other back
  cases since other back

theorem none (recent : Recent loans []) : ¬Back loans item := by
  intro back
  cases recent.complete item back

end Recent

theorem LastBack.back (last : LastBack loans item) : Back loans item := by
  obtain ⟨earlier, later, same, untaken, _⟩ := last
  exact ⟨earlier, later, same, untaken⟩

theorem LastBack.unique (first : LastBack loans item) (second : LastBack loans other) :
    item = other := by
  obtain ⟨earlier, later, rfl, untaken, none⟩ := first
  obtain ⟨earlier', later', same, untaken', none'⟩ := second
  rcases List.append_eq_append_iff.mp same with ⟨middle, rfl, rest⟩ | ⟨middle, rfl, rest⟩
  · cases middle with
    | nil =>
        cases rest
        rfl
    | cons loan middle =>
        cases rest
        exact absurd ⟨middle, later', rfl, untaken'⟩ (none other)
  · cases middle with
    | nil =>
        cases rest
        rfl
    | cons loan middle =>
        cases rest
        exact absurd ⟨middle, later, rfl, untaken⟩ (none' item)

/-- The items that are back, the last one on top. -/
def backs [DecidableEq Item] (loans : List (Loan Item)) : List Item :=
  loans.foldl (fun stack loan => match loan with
    | .returned item => item :: stack
    | .taken item => stack.filter fun other => other ≠ item) []

section Backs

variable [DecidableEq Item]

theorem recent_backs (loans : List (Loan Item)) : Recent loans (backs loans) := by
  induction loans using List.reverseRecOn with
  | nil => exact .start
  | append_singleton loans loan ih =>
      simp only [backs, List.foldl_append, List.foldl_cons, List.foldl_nil]
      cases loan with
      | taken item => exact ih.take
      | returned item => exact ih.push

theorem lastBack_iff : LastBack loans item ↔ (backs loans).head? = some item := by
  have recent := recent_backs loans
  cases stack : backs loans with
  | nil =>
      rw [stack] at recent
      simp only [List.head?_nil, reduceCtorEq, iff_false]
      intro last
      exact recent.none last.back
  | cons top below =>
      rw [stack] at recent
      rw [List.head?_cons, Option.some.injEq]
      constructor
      · intro last
        exact recent.last.unique last
      · intro same
        rw [← same]
        exact recent.last

instance : Decidable (LastBack loans item) := decidable_of_iff _ lastBack_iff.symm

end Backs

end Loan

end DmLockFree.Library
