import Mathlib.Data.List.Basic
import Mathlib.Tactic

/-! Items laid end to end on the number line. `place` gives every item the start
of its half-open range. -/

namespace Sponge.Tiling

variable {Item : Type} (size : Item → Nat)

def extent (items : List Item) : Nat :=
  (items.map size).sum

def place : Nat → List Item → List (Nat × Item)
  | _, [] => []
  | start, item :: rest => (start, item) :: place (start + size item) rest

@[simp] theorem extent_nil : extent size [] = 0 :=
  rfl

@[simp] theorem extent_cons (item : Item) (rest : List Item) :
    extent size (item :: rest) = size item + extent size rest := by
  simp [extent]

@[simp] theorem extent_append (front back : List Item) :
    extent size (front ++ back) = extent size front + extent size back := by
  simp [extent]

theorem place_append (start : Nat) (front back : List Item) :
    place size start (front ++ back) =
      place size start front ++ place size (start + extent size front) back := by
  induction front generalizing start with
  | nil => simp [place]
  | cons item rest induction =>
      simp only [List.cons_append, place, extent_cons]
      rw [induction, Nat.add_assoc]

@[simp] theorem map_snd_place (start : Nat) (items : List Item) :
    (place size start items).map Prod.snd = items := by
  induction items generalizing start with
  | nil => rfl
  | cons item rest induction => simp [place, induction]

theorem place_bounds {start : Nat} {items : List Item} {tile : Nat × Item}
    (member : tile ∈ place size start items) :
    start ≤ tile.1 ∧ tile.1 + size tile.2 ≤ start + extent size items := by
  induction items generalizing start with
  | nil => simp [place] at member
  | cons item rest induction =>
      simp only [place, List.mem_cons] at member
      rw [extent_cons]
      rcases member with rfl | member
      · constructor
        · exact Nat.le_refl _
        · dsimp only
          omega
      · have := induction member
        omega

theorem split_of_mem_place {start : Nat} {items : List Item} {tile : Nat × Item}
    (member : tile ∈ place size start items) :
    ∃ front back, items = front ++ tile.2 :: back ∧
      tile.1 = start + extent size front := by
  induction items generalizing start with
  | nil => simp [place] at member
  | cons item rest induction =>
      simp only [place, List.mem_cons] at member
      rcases member with rfl | member
      · exact ⟨[], rest, rfl, rfl⟩
      · obtain ⟨front, back, rfl, position⟩ := induction member
        refine ⟨item :: front, back, rfl, ?_⟩
        rw [position, extent_cons, Nat.add_assoc]

/-- The ranges leave no gap and do not overlap. -/
theorem place_existsUnique {start : Nat} {items : List Item} {point : Nat}
    (low : start ≤ point) (high : point < start + extent size items) :
    ∃! tile, tile ∈ place size start items ∧
      tile.1 ≤ point ∧ point < tile.1 + size tile.2 := by
  induction items generalizing start with
  | nil => simp at high; omega
  | cons item rest induction =>
      rw [extent_cons] at high
      by_cases inside : point < start + size item
      · refine ⟨(start, item), ⟨List.mem_cons_self, low, inside⟩, ?_⟩
        rintro tile ⟨member, starts, _⟩
        rcases List.mem_cons.mp member with equal | later
        · exact equal
        · have := place_bounds size later
          omega
      · obtain ⟨tile, ⟨member, starts, ends⟩, unique⟩ :=
          @induction (start + size item) (by omega) (by omega)
        refine ⟨tile, ⟨List.mem_cons_of_mem _ member, starts, ends⟩, ?_⟩
        rintro other ⟨otherMember, otherStarts, otherEnds⟩
        rcases List.mem_cons.mp otherMember with rfl | later
        · exact absurd otherEnds inside
        · exact unique other ⟨later, otherStarts, otherEnds⟩

/-- The tile at the front of those that end past a point inside the tiling is
the one that contains the point. -/
theorem head_past_contains {start : Nat} {items : List Item} {point : Nat}
    (low : start ≤ point) {tile : Nat × Item}
    (head : ((place size start items).filter
      (fun tile => decide (point < tile.1 + size tile.2))).head? = some tile) :
    tile.1 ≤ point ∧ point < tile.1 + size tile.2 := by
  induction items generalizing start with
  | nil => simp [place] at head
  | cons item rest induction =>
      simp only [place, List.filter_cons] at head
      split at head
      next inside =>
        simp only [List.head?_cons, Option.some.injEq] at head
        subst head
        exact ⟨low, by simpa using inside⟩
      next outside =>
        have past : start + size item ≤ point := by simpa using outside
        exact induction past head

end Sponge.Tiling
