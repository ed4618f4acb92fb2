import Mathlib.Data.List.Nodup
import Mathlib.Logic.Function.Basic

/-!
# Heaps whose living objects are all accounted for

A list of pointers owns a heap when it names every living object exactly once.
-/

set_option autoImplicit false

namespace DmLockFree.Library

variable {Pointer Object : Type}

structure Owns (owned : List Pointer) (heap : Pointer → Option Object) : Prop where
  nodup : owned.Nodup
  alive : ∀ pointer, heap pointer ≠ none ↔ pointer ∈ owned

namespace Owns

variable {owned rest : List Pointer} {heap : Pointer → Option Object} {pointer : Pointer}
  {object : Object}

theorem nil : Owns ([] : List Pointer) (fun _ => (none : Option Object)) :=
  ⟨List.nodup_nil, fun _ => by simp⟩

theorem exists_object (owns : Owns owned heap) (member : pointer ∈ owned) :
    ∃ object, heap pointer = some object :=
  Option.ne_none_iff_exists'.mp ((owns.alive pointer).mpr member)

theorem perm {other : List Pointer} (owns : Owns owned heap) (same : owned.Perm other) :
    Owns other heap :=
  ⟨same.nodup_iff.mp owns.nodup, fun pointer => (owns.alive pointer).trans same.mem_iff⟩

variable [DecidableEq Pointer]

theorem allocate (owns : Owns owned heap) (dead : heap pointer = none) (object : Object) :
    Owns (owned ++ [pointer]) (Function.update heap pointer (some object)) := by
  have unowned : pointer ∉ owned := fun member => (owns.alive pointer).mpr member dead
  refine ⟨List.nodup_append.mpr ⟨owns.nodup, List.nodup_singleton _, ?_⟩, fun other => ?_⟩
  · intro _ member _ last same
    subst same
    exact unowned (List.mem_singleton.mp last ▸ member)
  · by_cases same : other = pointer
    · simp [same]
    · simp [owns.alive, same]

theorem free (owns : Owns (pointer :: rest) heap) :
    Owns rest (Function.update heap pointer none) := by
  obtain ⟨apart, nodup⟩ := List.nodup_cons.mp owns.nodup
  refine ⟨nodup, fun other => ?_⟩
  by_cases same : other = pointer
  · subst same
    simp [apart]
  · rw [Function.update_of_ne same, owns.alive, List.mem_cons, or_iff_right same]

theorem map_update {others : List Pointer} (apart : pointer ∉ others) (object : Option Object) :
    others.map (Function.update heap pointer object) = others.map heap := by
  refine List.map_congr_left fun other member => Function.update_of_ne ?_ _ _
  intro same
  subst same
  exact apart member

end Owns

end DmLockFree.Library
