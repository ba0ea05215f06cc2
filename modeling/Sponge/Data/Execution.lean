import Mathlib.Order.Filter.AtTopBot.Basic
import Sponge.Data.Machine

namespace Sponge

/-- A run that never stops: at every time a state and the operation performed in
it. -/
structure Execution {State Op : Type} (machine : Machine State Op) where
  state : Nat → State
  op : Nat → Op
  starts : state 0 = machine.init
  permitted : ∀ time, machine.guard (state time) (op time)
  follows : ∀ time, state (time + 1) = machine.next (state time) (op time)

namespace Execution

open Filter

variable {State Op : Type} {machine : Machine State Op}

theorem reachable (execution : Execution machine) (time : Nat) :
    machine.Reachable (execution.state time) := by
  induction time with
  | zero =>
      rw [execution.starts]
      exact Machine.reachable_init
  | succ time induction =>
      rw [execution.follows]
      exact induction.next _ (execution.permitted time)

def unroll (machine : Machine State Op) (op : Nat → Op) : Nat → State
  | 0 => machine.init
  | time + 1 => machine.next (unroll machine op time) (op time)

def ofOps (machine : Machine State Op) (op : Nat → Op)
    (permitted : ∀ time, machine.guard (unroll machine op time) (op time)) :
    Execution machine where
  state := unroll machine op
  op := op
  starts := rfl
  permitted := permitted
  follows := fun _ => rfl

/-! ## Rules for what happens again and again -/

variable {Holds : Nat → Prop}

/-- A bounded measure does not rise forever, so what can only be put off by a rise
happens again and again. -/
theorem frequently_of_rises {measure : Nat → Nat} {limit : Nat}
    (limited : ∀ time, measure time ≤ limit)
    (rises : ∀ time, (∃ later ≥ time, Holds later) ∨
      ∃ later ≥ time, measure time < measure later) :
    ∃ᶠ time in atTop, Holds time := by
  rw [frequently_atTop]
  intro time
  induction left : limit - measure time using Nat.strong_induction_on generalizing time with
  | _ left induction =>
      rcases rises time with happens | ⟨middle, after, higher⟩
      · exact happens
      · have below := limited middle
        obtain ⟨later, onward, holds⟩ := induction _ (by omega) middle rfl
        exact ⟨later, Nat.le_trans after onward, holds⟩

theorem eventually_of_stable {time : Nat} (holds : Holds time)
    (stable : ∀ later ≥ time, Holds later → Holds (later + 1)) :
    ∀ᶠ later in atTop, Holds later := by
  rw [eventually_atTop]
  exact ⟨time, fun later after => Nat.le_induction holds stable later after⟩

end Execution

end Sponge
