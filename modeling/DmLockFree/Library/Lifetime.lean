import Mathlib.Data.List.Basic

/-!
# Lifetimes of heap objects

A history of allocations and deletions in which pointers may be handed out again.
An object is an allocation in the history; it is deleted by the deletions of its
pointer up to the next allocation of that pointer.
-/

set_option autoImplicit false

namespace DmLockFree.Library

inductive Use (Pointer : Type) where
  | allocate (pointer : Pointer)
  | delete (pointer : Pointer)
  deriving DecidableEq, Repr

variable {Pointer : Type}

theorem split_snoc {uses before after : List (Use Pointer)} {last : Use Pointer}
    {pointer : Pointer} (split : uses ++ [last] = before ++ .allocate pointer :: after) :
    (after = [] ∧ last = .allocate pointer) ∨
      ∃ earlier, after = earlier ++ [last] ∧ uses = before ++ .allocate pointer :: earlier := by
  rcases List.eq_nil_or_concat after with rfl | ⟨earlier, final, rfl⟩
  · obtain ⟨_, same⟩ := List.append_inj' split rfl
    exact .inl ⟨rfl, List.singleton_inj.mp same⟩
  · rw [List.concat_eq_append] at split
    rw [← List.cons_append, ← List.append_assoc] at split
    obtain ⟨rest, same⟩ := List.append_inj' split rfl
    cases List.singleton_inj.mp same
    exact .inr ⟨earlier, List.concat_eq_append, rest⟩

variable [DecidableEq Pointer]

/-- The deletions of a pointer before it is handed out again. -/
def deletions (pointer : Pointer) : List (Use Pointer) → Nat
  | [] => 0
  | .allocate other :: rest => if other = pointer then 0 else deletions pointer rest
  | .delete other :: rest => deletions pointer rest + if other = pointer then 1 else 0

/-- Every object has been deleted, and only once. -/
def DeletedOnce (uses : List (Use Pointer)) : Prop :=
  ∀ before pointer after, uses = before ++ .allocate pointer :: after →
    deletions pointer after = 1

theorem deletions_allocate (pointer other : Pointer) (uses : List (Use Pointer)) :
    deletions pointer (uses ++ [.allocate other]) = deletions pointer uses := by
  induction uses with
  | nil => simp [deletions]
  | cons use uses ih =>
      cases use with
      | allocate first => simp only [List.cons_append, deletions, ih]
      | delete first => simp only [List.cons_append, deletions, ih]

/-- The object is deleted again if its pointer has not been handed out since. -/
theorem deletions_delete {pointer : Pointer} {uses : List (Use Pointer)}
    (current : .allocate pointer ∉ uses) :
    deletions pointer (uses ++ [.delete pointer]) = deletions pointer uses + 1 := by
  induction uses with
  | nil => simp [deletions]
  | cons use uses ih =>
      rw [List.mem_cons, not_or] at current
      obtain ⟨apart, later⟩ := current
      cases use with
      | allocate first =>
          have other : first ≠ pointer := by
            intro same
            subst same
            exact apart rfl
          simp only [List.cons_append, deletions, if_neg other, ih later]
      | delete first =>
          simp only [List.cons_append, deletions, ih later]
          omega

theorem deletions_past {pointer other : Pointer} {uses : List (Use Pointer)}
    (past : other = pointer → .allocate pointer ∈ uses) :
    deletions pointer (uses ++ [.delete other]) = deletions pointer uses := by
  induction uses with
  | nil =>
      have apart : other ≠ pointer := fun same => absurd (past same) List.not_mem_nil
      simp [deletions, apart]
  | cons use uses ih =>
      cases use with
      | allocate first =>
          simp only [List.cons_append, deletions]
          by_cases here : first = pointer
          · rw [if_pos here, if_pos here]
          · rw [if_neg here, if_neg here, ih]
            intro same
            rcases List.mem_cons.mp (past same) with now | later
            · cases now
              exact absurd rfl here
            · exact later
      | delete first =>
          simp only [List.cons_append, deletions]
          rw [ih]
          intro same
          rcases List.mem_cons.mp (past same) with now | later
          · cases now
          · exact later

/-- The living objects are the last allocations of their pointers and have not
been deleted; all others have been deleted once. -/
structure Lives (uses : List (Use Pointer)) (alive : Pointer → Prop) : Prop where
  living : ∀ before pointer after, uses = before ++ .allocate pointer :: after →
    alive pointer → .allocate pointer ∉ after → deletions pointer after = 0
  dead : ∀ before pointer after, uses = before ++ .allocate pointer :: after →
    ¬alive pointer ∨ .allocate pointer ∈ after → deletions pointer after = 1
  born : ∀ pointer, alive pointer → ∃ before after,
    uses = before ++ .allocate pointer :: after ∧ .allocate pointer ∉ after

theorem Lives.nil {alive : Pointer → Prop} (nothing : ∀ pointer, ¬alive pointer) :
    Lives [] alive := by
  constructor
  case living => intro before pointer after split; simp at split
  case dead => intro before pointer after split; simp at split
  case born => intro pointer lives; exact (nothing pointer lives).elim

section Steps

variable {uses : List (Use Pointer)} {alive alive' : Pointer → Prop} {pointer : Pointer}

theorem Lives.allocate (lives : Lives uses alive) (unused : ¬alive pointer)
    (now : ∀ other, alive' other ↔ other = pointer ∨ alive other) :
    Lives (uses ++ [.allocate pointer]) alive' := by
  constructor
  case living =>
      intro before other after split living current
      rcases split_snoc split with ⟨rfl, _⟩ | ⟨earlier, rfl, shorter⟩
      · rfl
      · rw [List.mem_append, not_or] at current
        have apart : other ≠ pointer := by
          intro same
          subst same
          exact current.2 (List.mem_singleton_self _)
        rw [deletions_allocate]
        exact lives.living before other earlier shorter (((now other).mp living).resolve_left apart)
          current.1
  case dead =>
      intro before other after split gone
      rcases split_snoc split with ⟨rfl, same⟩ | ⟨earlier, rfl, shorter⟩
      · cases same
        rcases gone with gone | again
        · exact (gone ((now pointer).mpr (.inl rfl))).elim
        · cases again
      · rw [deletions_allocate]
        apply lives.dead before other earlier shorter
        rcases gone with gone | again
        · exact .inl fun living => gone ((now other).mpr (.inr living))
        · rcases List.mem_append.mp again with before | last
          · exact .inr before
          · cases List.mem_singleton.mp last
            exact .inl unused
  case born =>
      intro other living
      by_cases same : other = pointer
      · subst same
        exact ⟨uses, [], rfl, List.not_mem_nil⟩
      · obtain ⟨before, after, split, current⟩ :=
          lives.born other (((now other).mp living).resolve_left same)
        refine ⟨before, after ++ [.allocate pointer], by rw [split]; simp, ?_⟩
        intro member
        rcases List.mem_append.mp member with earlier | last
        · exact current earlier
        · cases List.mem_singleton.mp last
          exact same rfl

theorem Lives.delete (lives : Lives uses alive) (living : alive pointer)
    (now : ∀ other, alive' other ↔ other ≠ pointer ∧ alive other) :
    Lives (uses ++ [.delete pointer]) alive' := by
  constructor
  case living =>
      intro before other after split living current
      rcases split_snoc split with ⟨_, same⟩ | ⟨earlier, rfl, shorter⟩
      · cases same
      · obtain ⟨apart, living⟩ := (now other).mp living
        rw [List.mem_append, not_or] at current
        rw [deletions_past fun same => absurd same.symm apart]
        exact lives.living before other earlier shorter living current.1
  case dead =>
      intro before other after split gone
      rcases split_snoc split with ⟨_, same⟩ | ⟨earlier, rfl, shorter⟩
      · cases same
      · by_cases again : .allocate other ∈ earlier
        · rw [deletions_past fun _ => again]
          exact lives.dead before other earlier shorter (.inr again)
        · by_cases same : other = pointer
          · subst same
            rw [deletions_delete again, lives.living before other earlier shorter living again]
          · rw [deletions_past fun equal => absurd equal.symm same]
            apply lives.dead before other earlier shorter
            left
            intro lived
            rcases gone with gone | member
            · exact gone ((now other).mpr ⟨same, lived⟩)
            · rcases List.mem_append.mp member with before | last
              · exact again before
              · cases List.mem_singleton.mp last
  case born =>
      intro other living
      obtain ⟨before, after, split, current⟩ := lives.born other ((now other).mp living).2
      refine ⟨before, after ++ [.delete pointer], by rw [split]; simp, ?_⟩
      intro member
      rcases List.mem_append.mp member with earlier | last
      · exact current earlier
      · cases List.mem_singleton.mp last

theorem Lives.deletedOnce_iff (lives : Lives uses alive) :
    DeletedOnce uses ↔ ∀ pointer, ¬alive pointer := by
  constructor
  · intro once pointer living
    obtain ⟨before, after, split, current⟩ := lives.born pointer living
    have none := lives.living before pointer after split living current
    rw [once before pointer after split] at none
    cases none
  · intro nothing before pointer after split
    exact lives.dead before pointer after split (.inl (nothing pointer))

end Steps

end DmLockFree.Library
