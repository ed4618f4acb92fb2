import Mathlib.Data.List.Basic
import Mathlib.Data.List.Nodup
import Mathlib.Data.List.Perm.Subperm
import Mathlib.Data.List.Sort

/-!
# Elements by their indices

Several takers pick the elements of one list. What they have picked is known by the
indices, and which of them is whose.
-/

set_option autoImplicit false

namespace DmLockFree.Library

variable {Name Value : Type}

/-- What the takers that are asked for have in a history. -/
def select (mine : Name → Bool) (history : List (Name × Value)) : List Value :=
  (history.filter fun step => mine step.1).map Prod.snd

/-- The values at the indices. -/
def pick (values : List Value) (indices : List Nat) : List Value := indices.filterMap (values[·]?)

section Select

variable {mine : Name → Bool} {name : Name}

theorem select_cons (name : Name) (value : Value) (history : List (Name × Value)) :
    select mine ((name, value) :: history) =
      if mine name then value :: select mine history else select mine history := by
  cases own : mine name <;> simp [select, own]

theorem select_append (first second : List (Name × Value)) :
    select mine (first ++ second) = select mine first ++ select mine second := by
  rw [select, List.filter_append, List.map_append]
  rfl

theorem select_own (own : mine name = true) (values : List Value) :
    select mine (values.map fun value => (name, value)) = values := by
  rw [select, List.filter_eq_self.mpr, List.map_map]
  · exact List.map_id' values
  · intro step member
    obtain ⟨_, _, rfl⟩ := List.mem_map.mp member
    exact own

theorem select_other (others : mine name = false) (values : List Value) :
    select mine (values.map fun value => (name, value)) = [] := by
  rw [select, List.filter_eq_nil_iff.mpr]
  · rfl
  · intro step member
    obtain ⟨_, _, rfl⟩ := List.mem_map.mp member
    rw [others]
    exact Bool.false_ne_true

theorem select_all (history : List (Name × Value)) :
    select (fun _ => true) history = history.map Prod.snd := by
  rw [select, List.filter_true]

end Select

section Pick

variable {values : List Value} {indices : List Nat} {count : Nat}

theorem pick_range (values : List Value) (count : Nat) :
    pick values (List.range count) = values.take count := by
  induction count with
  | zero => rfl
  | succ count ih =>
      rw [List.range_succ, pick, List.filterMap_append, ← pick, ih, List.take_add_one]
      cases here : values[count]? <;> simp [here]

/-- Different indices below a bound pick different ones of the first elements. -/
theorem pick_subperm (once : indices.Nodup) (below : ∀ index ∈ indices, index < count) :
    (pick values indices).Subperm (values.take count) := by
  obtain ⟨ordered, same, part⟩ := List.subperm_of_subset once
    fun index member => List.mem_range.mpr (below index member)
  rw [← pick_range]
  exact ⟨pick values ordered, same.filterMap _, part.filterMap _⟩

/-- Increasing indices keep the order. -/
theorem pick_sublist (increasing : indices.Pairwise (· < ·))
    (below : ∀ index ∈ indices, index < count) :
    (pick values indices).Sublist (values.take count) := by
  have once : indices.Nodup := increasing.imp Nat.ne_of_lt
  have part : indices.Subperm (List.range count) :=
    List.subperm_of_subset once fun index member => List.mem_range.mpr (below index member)
  rw [← pick_range]
  exact (List.sublist_of_subperm_of_pairwise part increasing List.pairwise_lt_range).filterMap _

/-- All indices below a bound pick all of the first elements. -/
theorem pick_perm (once : indices.Nodup) (all : ∀ index, index ∈ indices ↔ index < count) :
    (pick values indices).Perm (values.take count) := by
  have same : indices.Perm (List.range count) :=
    (List.perm_ext_iff_of_nodup once List.nodup_range).mpr fun index =>
      (all index).trans List.mem_range.symm
  rw [← pick_range]
  exact same.filterMap _

theorem pick_length (below : ∀ index ∈ indices, index < values.length) :
    (pick values indices).length = indices.length := by
  induction indices with
  | nil => rfl
  | cons index rest ih =>
      have here := List.getElem?_eq_getElem (below index List.mem_cons_self)
      rw [pick, List.filterMap_cons_some here, List.length_cons, List.length_cons, ← pick,
        ih fun other member => below other (List.mem_cons_of_mem _ member)]

theorem pick_append {more : List Value} (below : ∀ index ∈ indices, index < values.length) :
    pick (values ++ more) indices = pick values indices :=
  List.filterMap_congr fun index member => List.getElem?_append_left (below index member)

theorem pick_range' (values : List Value) (start count : Nat) :
    pick values (List.range' start count) = (values.drop start).take count := by
  rw [← pick_range, pick, pick, List.range'_eq_map_range, List.filterMap_map]
  exact List.filterMap_congr fun index _ => List.getElem?_drop.symm

/-- What is taken is what the indices pick, for every choice of takers. -/
theorem select_pick {taken : List (Name × Value)} {trail : List (Name × Nat)}
    (same : taken.map (Prod.map id some) = trail.map (Prod.map id (values[·]?)))
    (mine : Name → Bool) : select mine taken = pick values (select mine trail) := by
  induction trail generalizing taken with
  | nil =>
      rw [List.map_nil, List.map_eq_nil_iff] at same
      rw [same]
      rfl
  | cons step trail ih =>
      cases taken with
      | nil => cases same
      | cons first taken =>
          obtain ⟨name, value⟩ := first
          obtain ⟨other, index⟩ := step
          simp only [List.map_cons, List.cons.injEq, Prod.map_apply, id_eq, Prod.mk.injEq] at same
          obtain ⟨⟨rfl, here⟩, rest⟩ := same
          have others := ih rest
          rw [select_cons, select_cons, others]
          split
          · exact (List.filterMap_cons_some here.symm).symm
          · rfl

end Pick

end DmLockFree.Library
