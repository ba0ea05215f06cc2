import Mathlib.Logic.Relation
import Mathlib.Tactic

namespace Sponge

/-- A guarded state machine: `guard` says which operations the environment may
perform in a state, `next` what the operation does there. -/
structure Machine (State Op : Type) where
  init : State
  guard : State → Op → Prop
  next : State → Op → State

namespace Machine

variable {State Op : Type} (machine : Machine State Op)

def Step (source target : State) : Prop :=
  ∃ op, machine.guard source op ∧ target = machine.next source op

def Reaches : State → State → Prop :=
  Relation.ReflTransGen machine.Step

def Reachable (state : State) : Prop :=
  machine.Reaches machine.init state

variable {machine}

theorem Reaches.next {source target : State}
    (reached : machine.Reaches source target) (op : Op)
    (allowed : machine.guard target op) :
    machine.Reaches source (machine.next target op) :=
  Relation.ReflTransGen.tail reached ⟨op, allowed, rfl⟩

theorem Reaches.trans {first second third : State}
    (front : machine.Reaches first second)
    (back : machine.Reaches second third) : machine.Reaches first third :=
  Relation.ReflTransGen.trans front back

theorem reachable_init : machine.Reachable machine.init :=
  Relation.ReflTransGen.refl

theorem Reachable.trans {source target : State}
    (reached : machine.Reachable source)
    (onward : machine.Reaches source target) : machine.Reachable target :=
  Reaches.trans reached onward

theorem invariant (Holds : State → Prop)
    (base : Holds machine.init)
    (step : ∀ state op, machine.guard state op → Holds state →
      Holds (machine.next state op))
    {state : State} (reached : machine.Reachable state) : Holds state := by
  induction reached with
  | refl => exact base
  | tail _ edge induction =>
      obtain ⟨op, allowed, rfl⟩ := edge
      exact step _ op allowed induction

/-- The invariant rule below a budget: `size` never shrinks, so a state within
the limit was reached through states within the limit. -/
theorem invariant_below (Holds : State → Prop) (size : State → Nat) (limit : Nat)
    (grows : ∀ state op, machine.guard state op →
      size state ≤ size (machine.next state op))
    (base : Holds machine.init)
    (step : ∀ state op, machine.guard state op → size state < limit →
      size (machine.next state op) < limit → Holds state →
      Holds (machine.next state op))
    {state : State} (reached : machine.Reachable state)
    (bound : size state < limit) : Holds state := by
  induction reached with
  | refl => exact base
  | tail _ edge induction =>
      obtain ⟨op, allowed, rfl⟩ := edge
      have before := Nat.lt_of_le_of_lt (grows _ op allowed) bound
      exact step _ op allowed before bound (induction before)

theorem Reachable.map {Image : Type} {other : Machine Image Op} (project : State → Image)
    (base : project machine.init = other.init)
    (step : ∀ state op, machine.guard state op → other.guard (project state) op ∧
      project (machine.next state op) = other.next (project state) op)
    {state : State} (reached : machine.Reachable state) :
    other.Reachable (project state) := by
  induction reached with
  | refl =>
      rw [base]
      exact reachable_init
  | tail _ edge induction =>
      obtain ⟨op, allowed, rfl⟩ := edge
      obtain ⟨permitted, commutes⟩ := step _ op allowed
      rw [commutes]
      exact Reaches.next induction op permitted

/-- Simulation with stuttering: every permitted operation is matched by some steps of the
other machine, possibly none. -/
theorem Reachable.simulate {Image Op' : Type} {other : Machine Image Op'}
    (project : State → Image) (base : project machine.init = other.init)
    (step : ∀ state op, other.Reachable (project state) → machine.guard state op →
      other.Reaches (project state) (project (machine.next state op)))
    {state : State} (reached : machine.Reachable state) :
    other.Reachable (project state) := by
  induction reached with
  | refl =>
      rw [base]
      exact reachable_init
  | tail _ edge induction =>
      obtain ⟨op, allowed, rfl⟩ := edge
      exact induction.trans (step _ op induction allowed)

variable (machine)

def restrict (allowed : State → Op → Prop) : Machine State Op :=
  { machine with guard := fun state op => machine.guard state op ∧ allowed state op }

instance decidableRestrict (allowed : State → Op → Prop)
    [∀ state op, Decidable (machine.guard state op)]
    [∀ state op, Decidable (allowed state op)] (state : State) (op : Op) :
    Decidable ((machine.restrict allowed).guard state op) :=
  inferInstanceAs (Decidable (_ ∧ _))

variable {machine}

theorem Reachable.of_restrict {allowed : State → Op → Prop} {state : State}
    (reached : (machine.restrict allowed).Reachable state) : machine.Reachable state := by
  apply @Reachable.map _ _ (machine.restrict allowed) _ machine id rfl _ _ reached
  intro state op permitted
  exact ⟨permitted.1, rfl⟩

theorem Reachable.unrestricted {state : State} (reached : machine.Reachable state) :
    (machine.restrict fun _ _ => True).Reachable state := by
  apply @Reachable.map _ _ machine _ (machine.restrict fun _ _ => True) id rfl _ _ reached
  intro state op permitted
  exact ⟨⟨permitted, trivial⟩, rfl⟩

/-! Executing a list of operations. -/

variable (machine)

def run (state : State) (ops : List Op) : State :=
  ops.foldl machine.next state

def Permits (state : State) : List Op → Prop
  | [] => True
  | op :: rest => machine.guard state op ∧ Permits (machine.next state op) rest

instance decidablePermits
    [decidableGuard : ∀ state op, Decidable (machine.guard state op)] :
    (state : State) → (ops : List Op) → Decidable (machine.Permits state ops)
  | _, [] => .isTrue trivial
  | state, op :: rest =>
      @instDecidableAnd _ _ (decidableGuard state op)
        (decidablePermits (machine.next state op) rest)

theorem reaches_run {source state : State} (reached : machine.Reaches source state)
    (ops : List Op) (permitted : machine.Permits state ops) :
    machine.Reaches source (machine.run state ops) := by
  induction ops generalizing state with
  | nil => exact reached
  | cons op rest induction =>
      exact induction (reached.next op permitted.1) permitted.2

theorem reachable_run (ops : List Op) (permitted : machine.Permits machine.init ops) :
    machine.Reachable (machine.run machine.init ops) :=
  machine.reaches_run reachable_init ops permitted

variable {machine}

theorem run_related {Image : Type} {other : Machine Image Op} (Related : State → Image → Prop)
    (step : ∀ state image op, Related state image → machine.guard state op →
      other.guard image op ∧ Related (machine.next state op) (other.next image op))
    {state : State} {image : Image} (related : Related state image) (ops : List Op)
    (permitted : machine.Permits state ops) :
    other.Permits image ops ∧ Related (machine.run state ops) (other.run image ops) := by
  induction ops generalizing state image with
  | nil => exact ⟨trivial, related⟩
  | cons op rest induction =>
      obtain ⟨allowed, onward⟩ := step state image op related permitted.1
      obtain ⟨permits, ends⟩ := induction onward permitted.2
      exact ⟨⟨allowed, permits⟩, ends⟩

theorem run_append (state : State) (first second : List Op) :
    machine.run state (first ++ second) = machine.run (machine.run state first) second :=
  List.foldl_append

theorem permits_append {state : State} {first second : List Op} :
    machine.Permits state (first ++ second) ↔
      machine.Permits state first ∧ machine.Permits (machine.run state first) second := by
  induction first generalizing state with
  | nil => exact ⟨fun permits => ⟨trivial, permits⟩, fun permits => permits.2⟩
  | cons op rest induction =>
      rw [List.cons_append, Permits, Permits, induction, and_assoc]
      rfl

end Machine

end Sponge
