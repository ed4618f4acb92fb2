import Mathlib.Data.List.Nodup
import Mathlib.Data.List.Range

/-!
# Free lists threaded through an array

Free slots are chained by the index that each of them stores; the chain starts
at a head index and ends at an index that no slot has.
-/

set_option autoImplicit false

namespace DmLockFree.Library

/-- Following `link` from `first` visits the nodes of the list and ends at `stop`. -/
def Linked (link : Nat → Nat) (stop : Nat) : Nat → List Nat → Prop
  | first, [] => first = stop
  | first, node :: rest => first = node ∧ Linked link stop (link node) rest

/-- Following the links for a number of steps: the nodes on the way and where it ends. -/
def follow (link : Nat → Nat) : Nat → Nat → List Nat × Nat
  | 0, node => ([], node)
  | steps + 1, node =>
      let (rest, last) := follow link steps (link node)
      (node :: rest, last)

namespace Linked

variable {link after : Nat → Nat} {stop first node : Nat} {nodes : List Nat}

theorem congr (linked : Linked link stop first nodes)
    (same : ∀ node, node ∈ nodes → after node = link node) : Linked after stop first nodes := by
  induction nodes generalizing first with
  | nil => exact linked
  | cons node rest ih =>
      obtain ⟨rfl, linked⟩ := linked
      refine ⟨rfl, ?_⟩
      rw [same first List.mem_cons_self]
      exact ih linked fun other member => same other (List.mem_cons_of_mem _ member)

theorem follow_eq (linked : Linked link stop first nodes) :
    follow link nodes.length first = (nodes, stop) := by
  induction nodes generalizing first with
  | nil =>
      cases linked
      rfl
  | cons node rest ih =>
      obtain ⟨rfl, linked⟩ := linked
      simp only [List.length_cons, follow, ih linked]

theorem push (linked : Linked link stop first nodes) (fresh : node ∉ nodes)
    (own : after node = first) (others : ∀ other, other ≠ node → after other = link other) :
    Linked after stop node (node :: nodes) := by
  refine ⟨rfl, ?_⟩
  rw [own]
  refine linked.congr fun other member => others other ?_
  intro same
  subst same
  exact fresh member

theorem range' {count : Nat} (step : ∀ node, node < first + count → link node = node + 1) :
    Linked link (first + count) first (List.range' first count) := by
  induction count generalizing first with
  | zero => rfl
  | succ count ih =>
      refine ⟨rfl, ?_⟩
      rw [step first (by omega), show first + (count + 1) = first + 1 + count by omega]
      exact ih fun node below => step node (by omega)

end Linked

end DmLockFree.Library
