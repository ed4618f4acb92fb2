import DmLockFree.Library.Machine

/-!
# States that answer alike

Two states, of one machine or of two with the same labels and events, are alike
when no sequence of permitted labels tells them apart by its events. Machines that
keep a relation between their states while they answer alike have the same histories.
-/

set_option autoImplicit false

namespace DmLockFree.Library.Machine

variable {Left Right Label Event : Type} {left : Machine Left Label Event}
  {right : Machine Right Label Event} {permitted : Label → Prop} {low : Left} {high : Right}

def Alike (left : Machine Left Label Event) (right : Machine Right Label Event)
    (permitted : Label → Prop) (low : Left) (high : Right) : Prop :=
  ∀ labels, (∀ label ∈ labels, permitted label) →
    (left.exec low labels).map Prod.fst = (right.exec high labels).map Prod.fst

theorem exec_cons_map (machine : Machine Left Label Event) (state : Left) (label : Label)
    (labels : List Label) :
    (machine.exec state (label :: labels)).map Prod.fst =
      (machine.step state label).bind fun taken =>
        ((machine.exec taken.1 labels).map Prod.fst).map (taken.2 :: ·) := by
  simp only [exec]
  cases machine.step state label with
  | none => rfl
  | some taken => cases executed : machine.exec taken.1 labels <;> simp [executed]

namespace Alike

theorem refl (permitted : Label → Prop) (low : Left) : Alike left left permitted low low :=
  fun _ _ => rfl

/-- What one label shows: the same event, and states that are alike again. -/
theorem step (alike : Alike left right permitted low high) {label : Label}
    (allowed : permitted label) {lower : Left} {event : Event}
    (taken : left.step low label = some (lower, event)) :
    ∃ higher, right.step high label = some (higher, event) ∧
      Alike left right permitted lower higher := by
  have first := alike [label] (by simpa using allowed)
  rw [exec_cons_map, exec_cons_map, taken] at first
  cases answered : right.step high label with
  | none => simp [answered, exec] at first
  | some pair =>
      obtain ⟨higher, other⟩ := pair
      simp [answered, exec] at first
      subst first
      refine ⟨higher, rfl, ?_⟩
      intro labels rest
      have whole := alike (label :: labels) (by simpa using ⟨allowed, rest⟩)
      rw [exec_cons_map, exec_cons_map, taken, answered] at whole
      simp only [Option.bind_some] at whole
      exact Option.map_injective (fun _ _ same => (List.cons.inj same).2) whole

/-- Coinduction: a relation whose states answer every permitted label with the
same event, and stay related, holds between states that are alike. -/
theorem of_related (Related : Left → Right → Prop)
    (next : ∀ {low : Left} {high : Right} {label : Label}, Related low high → permitted label →
      (left.step low label = none ∧ right.step high label = none) ∨
      ∃ lower higher event, left.step low label = some (lower, event) ∧
        right.step high label = some (higher, event) ∧ Related lower higher)
    (related : Related low high) : Alike left right permitted low high := by
  intro labels
  induction labels generalizing low high with
  | nil => exact fun _ => rfl
  | cons label labels ih =>
      intro allowed
      have head := allowed label (List.mem_cons_self ..)
      have tail : ∀ other ∈ labels, permitted other :=
        fun other member => allowed other (List.mem_cons_of_mem _ member)
      rw [exec_cons_map, exec_cons_map]
      rcases next related head with ⟨stops, halts⟩ | ⟨lower, higher, event, moves, answers, kept⟩
      · rw [stops, halts]
        rfl
      · simp only [moves, answers, Option.bind_some, ih kept tail]

end Alike

/-- Along histories of a kind the machines can take the same labels and show the same
events. -/
structure Lockstep (left : Machine Left Label Event) (right : Machine Right Label Event)
    (Kind : List Event → Prop) (Related : Left → Right → Prop) : Prop where
  before : ∀ {events : List Event} {event : Event}, Kind (events ++ [event]) → Kind events
  start : Related left.start right.start
  next : ∀ {events : List Event} {low : Left} {high : Right} (label : Label), Kind events →
    left.Run events low → right.Run events high → Related low high →
    (left.step low label = none ∧ right.step high label = none) ∨
    ∃ lower higher event, left.step low label = some (lower, event) ∧
      right.step high label = some (higher, event) ∧
      (Kind (events ++ [event]) → Related lower higher)

namespace Lockstep

variable {Kind : List Event → Prop} {Related : Left → Right → Prop} {events : List Event}

theorem run_left (lockstep : Lockstep left right Kind Related) (kind : Kind events)
    (run : left.Run events low) : ∃ high, right.Run events high ∧ Related low high := by
  induction run with
  | refl => exact ⟨right.start, .refl, lockstep.start⟩
  | @snoc low lower events label event path taken ih =>
      obtain ⟨high, other, related⟩ := ih (lockstep.before kind)
      rcases lockstep.next label (lockstep.before kind) path other related with
        ⟨stops, _⟩ | ⟨_, higher, _, moves, answers, kept⟩
      · cases stops.symm.trans taken
      · cases moves.symm.trans taken
        exact ⟨higher, other.snoc answers, kept kind⟩

theorem run_right (lockstep : Lockstep left right Kind Related) (kind : Kind events)
    (run : right.Run events high) : ∃ low, left.Run events low ∧ Related low high := by
  induction run with
  | refl => exact ⟨left.start, .refl, lockstep.start⟩
  | @snoc high higher events label event path taken ih =>
      obtain ⟨low, other, related⟩ := ih (lockstep.before kind)
      rcases lockstep.next label (lockstep.before kind) other path related with
        ⟨_, halts⟩ | ⟨lower, _, _, moves, answers, kept⟩
      · cases halts.symm.trans taken
      · cases answers.symm.trans taken
        exact ⟨lower, other.snoc moves, kept kind⟩

end Lockstep

end DmLockFree.Library.Machine
