import DmLockFree.Library.Threads

/-!
# Calls that nobody interrupts

The accesses of a thread between which no other thread acts.
-/

set_option autoImplicit false

namespace DmLockFree.Library.Program

variable {Thread Shared Pc Call Output : Type} {program : Program Thread Shared Pc Call Output}

/-- Within the given number of accesses the call ends, with the last output and in
the object that are asked for. -/
def EndsWithin (program : Program Thread Shared Pc Call Output)
    (post : Shared → Output → Prop) : Nat → Shared → Pc → Prop
  | 0, _, _ => False
  | fuel + 1, shared, pc =>
      ∃ after next output, program.advance shared pc = some (after, next, output) ∧
        ((next = program.idle ∧ post after output) ∨ EndsWithin program post fuel after next)

/-- Within the given number of accesses the thread comes to an object and a point that
are asked for. -/
def ComesTo (program : Program Thread Shared Pc Call Output)
    (post : Shared → Pc → Prop) : Nat → Shared → Pc → Prop
  | 0, shared, pc => post shared pc
  | fuel + 1, shared, pc =>
      post shared pc ∨ ∃ after next output, program.advance shared pc = some (after, next, output) ∧
        ComesTo program post fuel after next

section Ends

variable {post : Shared → Output → Prop} {fuel : Nat} {shared after : Shared} {pc next : Pc}
  {output : Output}

theorem EndsWithin.last (taken : program.advance shared pc = some (after, program.idle, output))
    (good : post after output) : program.EndsWithin post (fuel + 1) shared pc :=
  ⟨after, program.idle, output, taken, .inl ⟨rfl, good⟩⟩

theorem EndsWithin.step (taken : program.advance shared pc = some (after, next, output))
    (rest : program.EndsWithin post fuel after next) :
    program.EndsWithin post (fuel + 1) shared pc :=
  ⟨after, next, output, taken, .inr rest⟩

/-- The call is a path of every machine of the program. -/
theorem EndsWithin.path [DecidableEq Thread] {start : Shared} {state : Threads Thread Shared Pc}
    {thread : Thread} (ends : program.EndsWithin post fuel state.shared (state.pc thread)) :
    ∃ events after output, (program.machine start).Path state (events ++ [.ran thread output]) after ∧
      events.length < fuel ∧ after.pc thread = program.idle ∧ post after.shared output ∧
      (∀ event ∈ events, event.thread = thread) ∧
      ∀ other, other ≠ thread → after.pc other = state.pc other := by
  induction fuel generalizing state with
  | zero => exact ends.elim
  | succ fuel ih =>
      obtain ⟨after, next, output, taken, done⟩ := ends
      have step : (program.machine start).step state (.run thread) =
          some (state.moved after thread next, .ran thread output) := by
        simp only [machine, taken, Option.map_some]
      rcases done with ⟨rfl, good⟩ | rest
      · refine ⟨[], _, output, Machine.Path.refl.snoc step, Nat.succ_pos fuel,
          Threads.moved_pc_self .., good,
          (fun _ member => by cases member), fun other apart => ?_⟩
        exact Function.update_of_ne apart ..
      · have here : (state.moved after thread next).pc thread = next := Threads.moved_pc_self ..
        rw [← here] at rest
        obtain ⟨events, last, final, path, short, idle, good, own, others⟩ :=
          @ih (state.moved after thread next) rest
        refine ⟨.ran thread output :: events, last, final, ?_, ?_, idle, good, ?_, ?_⟩
        · exact (Machine.Path.refl.snoc step).trans path
        · exact Nat.succ_lt_succ short
        · intro event member
          rcases List.mem_cons.mp member with rfl | later
          · rfl
          · exact own event later
        · intro other apart
          rw [others other apart]
          exact Function.update_of_ne apart ..

end Ends

namespace ComesTo

variable {post : Shared → Pc → Prop} {fuel : Nat} {shared after : Shared} {pc next : Pc}
  {output : Output}

theorem here (good : post shared pc) : program.ComesTo post fuel shared pc := by
  cases fuel with
  | zero => exact good
  | succ fuel => exact .inl good

theorem step (taken : program.advance shared pc = some (after, next, output))
    (rest : program.ComesTo post fuel after next) : program.ComesTo post (fuel + 1) shared pc :=
  .inr ⟨after, next, output, taken, rest⟩

theorem mono (comes : program.ComesTo post fuel shared pc) (extra : Nat) :
    program.ComesTo post (fuel + extra) shared pc := by
  induction fuel generalizing shared pc with
  | zero => exact here comes
  | succ fuel ih =>
      rw [Nat.succ_add]
      rcases comes with good | ⟨after, next, output, taken, rest⟩
      · exact here good
      · exact step taken (ih rest)

end ComesTo

end DmLockFree.Library.Program
