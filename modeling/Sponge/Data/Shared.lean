import Mathlib.Data.List.Basic
import Mathlib.Data.List.Nodup

namespace Sponge

/-- Names that own objects: each name owns one, and an object may have several owners. The
variables of a shared pointer type are such names (one that is not here is null), and so are
the descriptor numbers of a process. -/
structure Shared (Name : Type) where
  owners : List (Name × Nat)
  distinct : (owners.map Prod.fst).Nodup
  deriving DecidableEq

namespace Shared

variable {Name : Type}

def empty : Shared Name :=
  ⟨[], List.nodup_nil⟩

def Owned (shared : Shared Name) (object : Nat) : Prop :=
  object ∈ shared.owners.map Prod.snd

instance (shared : Shared Name) (object : Nat) : Decidable (shared.Owned object) :=
  inferInstanceAs (Decidable (object ∈ shared.owners.map Prod.snd))

variable [DecidableEq Name]

def target? (shared : Shared Name) (name : Name) : Option Nat :=
  shared.owners.lookup name

def reset (shared : Shared Name) (name : Name) : Shared Name where
  owners := shared.owners.filter fun owner => owner.1 != name
  distinct := (List.filter_sublist.map Prod.fst).nodup shared.distinct

theorem not_mem_reset (shared : Shared Name) (name : Name) :
    name ∉ (shared.reset name).owners.map Prod.fst := by
  intro member
  obtain ⟨owner, inside, rfl⟩ := List.mem_map.mp member
  exact bne_iff_ne.mp (List.mem_filter.mp inside).2 rfl

def assign (shared : Shared Name) (name : Name) (object : Nat) : Shared Name where
  owners := (name, object) :: (shared.reset name).owners
  distinct := List.nodup_cons.mpr ⟨shared.not_mem_reset name, (shared.reset name).distinct⟩

section

variable {shared : Shared Name} {name other : Name} {object : Nat}

theorem target?_eq_some :
    shared.target? name = some object ↔ (name, object) ∈ shared.owners := by
  obtain ⟨owners, distinct⟩ := shared
  change owners.lookup name = some object ↔ (name, object) ∈ owners
  induction owners with
  | nil => simp
  | cons owner rest induction =>
      obtain ⟨apart, onward⟩ := List.nodup_cons.mp distinct
      obtain ⟨first, held⟩ := owner
      rw [List.lookup_cons, List.mem_cons, ← induction onward]
      by_cases same : name = first
      · subst same
        have absent : rest.lookup name ≠ some object := by
          rw [Ne, induction onward]
          exact fun member => apart (List.mem_map.mpr ⟨_, member, rfl⟩)
        simp [absent, eq_comm]
      · have differs : (name == first) = false := beq_false_of_ne same
        simp [differs, same]

theorem owned_iff : shared.Owned object ↔ ∃ name, shared.target? name = some object := by
  simp only [target?_eq_some, Owned, List.mem_map, Prod.exists, exists_eq_right]

theorem Owned.of_target (held : shared.target? name = some object) : shared.Owned object :=
  owned_iff.mpr ⟨name, held⟩

theorem target?_reset :
    (shared.reset name).target? other = some object ↔
      other ≠ name ∧ shared.target? other = some object := by
  rw [target?_eq_some, target?_eq_some, reset, List.mem_filter, bne_iff_ne, and_comm]

theorem target?_assign {held : Nat} :
    (shared.assign name object).target? other = some held ↔
      other = name ∧ held = object ∨ other ≠ name ∧ shared.target? other = some held := by
  rw [target?_eq_some, assign, List.mem_cons, Prod.mk.injEq, ← target?_eq_some,
    target?_reset]

/-- Only the object of that name can lose its last owner. -/
theorem owned_reset_of_ne (differs : shared.target? name ≠ some object) :
    (shared.reset name).Owned object ↔ shared.Owned object := by
  rw [owned_iff, owned_iff]
  constructor
  · rintro ⟨other, held⟩
    exact ⟨other, (target?_reset.mp held).2⟩
  · rintro ⟨other, held⟩
    refine ⟨other, target?_reset.mpr ⟨?_, held⟩⟩
    rintro rfl
    exact differs held

theorem owned_assign {held : Nat} :
    (shared.assign name object).Owned held ↔ held = object ∨ (shared.reset name).Owned held := by
  rw [owned_iff, owned_iff]
  constructor
  · rintro ⟨other, bound⟩
    rcases target?_assign.mp bound with ⟨_, same⟩ | kept
    · exact Or.inl same
    · exact Or.inr ⟨other, target?_reset.mpr kept⟩
  · rintro (rfl | ⟨other, bound⟩)
    · exact ⟨name, target?_assign.mpr (Or.inl ⟨rfl, rfl⟩)⟩
    · exact ⟨other, target?_assign.mpr (Or.inr (target?_reset.mp bound))⟩

end

end Shared

end Sponge
