import Mathlib.Data.List.Nodup
import Mathlib.Logic.Function.Basic

/-!
# Null-terminated chains

Nodes linked by optional successors. The nodes on a chain are determined by its
first node, and a chain is unaware of the links of other nodes.
-/

set_option autoImplicit false

namespace DmLockFree.Library

variable {Node : Type}

/-- Following `next` from `first` visits the nodes of the list and ends at null. -/
def Chained (next : Node → Option Node) : Option Node → List Node → Prop
  | first, [] => first = none
  | first, node :: rest => first = some node ∧ Chained next (next node) rest

namespace Chained

variable {next after : Node → Option Node} {first : Option Node} {node : Node}
  {nodes : List Node}

theorem nil : Chained next none [] := rfl

theorem congr (chained : Chained next first nodes)
    (same : ∀ node, node ∈ nodes → after node = next node) : Chained after first nodes := by
  induction nodes generalizing first with
  | nil => exact chained
  | cons node rest ih =>
      obtain ⟨rfl, chained⟩ := chained
      refine ⟨rfl, ?_⟩
      rw [same node List.mem_cons_self]
      exact ih chained fun other member => same other (List.mem_cons_of_mem _ member)

theorem update [DecidableEq Node] (chained : Chained next first nodes) (apart : node ∉ nodes)
    (link : Option Node) : Chained (Function.update next node link) first nodes := by
  refine chained.congr fun other member => Function.update_of_ne ?_ _ _
  intro same
  subst same
  exact apart member

theorem push (chained : Chained next first nodes) (link : next node = first) :
    Chained next (some node) (node :: nodes) := by
  refine ⟨rfl, ?_⟩
  rw [link]
  exact chained

theorem eq_nil (chained : Chained next none nodes) : nodes = [] := by
  cases nodes with
  | nil => rfl
  | cons node rest => cases chained.1

theorem eq_cons (chained : Chained next (some node) nodes) :
    ∃ rest, nodes = node :: rest ∧ Chained next (next node) rest := by
  cases nodes with
  | nil => cases chained
  | cons other rest =>
      obtain ⟨same, chained⟩ := chained
      cases same
      exact ⟨rest, rfl, chained⟩

end Chained

end DmLockFree.Library
