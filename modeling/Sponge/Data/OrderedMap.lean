import Mathlib.Data.List.Basic
import Mathlib.Tactic

namespace Sponge

/-- A map with natural-number keys, listed in iteration order. The order is part
of the value, as it is for `std::map`. -/
structure OrderedMap (Value : Type) where
  entries : List (Nat × Value)
  sorted : entries.Pairwise (fun left right => left.1 < right.1)
  deriving DecidableEq

namespace OrderedMap

variable {Value : Type}

def empty : OrderedMap Value :=
  ⟨[], List.Pairwise.nil⟩

@[simp] theorem entries_empty : (empty : OrderedMap Value).entries = [] :=
  rfl

def find? (map : OrderedMap Value) (key : Nat) : Option Value :=
  (map.entries.find? (fun entry => entry.1 == key)).map Prod.snd

def begin? (map : OrderedMap Value) : Option (Nat × Value) :=
  map.entries.head?

theorem value_unique (map : OrderedMap Value) {key : Nat} {first second : Value}
    (left : (key, first) ∈ map.entries) (right : (key, second) ∈ map.entries) :
    first = second := by
  obtain ⟨entries, sorted⟩ := map
  induction entries with
  | nil => simp at left
  | cons head tail induction =>
      rw [List.pairwise_cons] at sorted
      simp only [List.mem_cons] at left right
      rcases left with rfl | left
      · rcases right with equal | right
        · exact (congrArg Prod.snd equal).symm
        · exact absurd (sorted.1 _ right) (Nat.lt_irrefl _)
      · rcases right with rfl | right
        · exact absurd (sorted.1 _ left) (Nat.lt_irrefl _)
        · exact induction sorted.2 left right

theorem find?_eq_some_iff (map : OrderedMap Value) (key : Nat) (value : Value) :
    map.find? key = some value ↔ (key, value) ∈ map.entries := by
  constructor
  · intro found
    simp only [find?, Option.map_eq_some_iff] at found
    obtain ⟨⟨key', value'⟩, located, rfl⟩ := found
    have same : key' = key := by simpa using List.find?_some located
    subst same
    exact List.mem_of_find?_eq_some located
  · intro member
    cases located : map.entries.find? (fun entry => entry.1 == key) with
    | none =>
        have absent := List.find?_eq_none.mp located _ member
        simp at absent
    | some entry =>
        obtain ⟨key', value'⟩ := entry
        have same : key' = key := by simpa using List.find?_some located
        subst same
        have equal := map.value_unique (List.mem_of_find?_eq_some located) member
        simp [find?, located, equal]

theorem find?_eq_none_iff (map : OrderedMap Value) (key : Nat) :
    map.find? key = none ↔ ∀ entry ∈ map.entries, entry.1 ≠ key := by
  simp [find?]

/-! Insertion at a key, with `resolve` applied to a value already there. -/

def placeEntry (resolve : Value → Value) (key : Nat) (value : Value) :
    List (Nat × Value) → List (Nat × Value)
  | [] => [(key, value)]
  | head :: tail =>
      if key < head.1 then
        (key, value) :: head :: tail
      else if key = head.1 then
        (key, resolve head.2) :: tail
      else
        head :: placeEntry resolve key value tail

theorem keys_placeEntry (resolve : Value → Value) (key : Nat) (value : Value)
    {entries : List (Nat × Value)} {entry : Nat × Value}
    (member : entry ∈ placeEntry resolve key value entries) :
    entry.1 = key ∨ ∃ old ∈ entries, old.1 = entry.1 := by
  induction entries with
  | nil =>
      simp only [placeEntry, List.mem_singleton] at member
      exact Or.inl (congrArg Prod.fst member)
  | cons head tail induction =>
      unfold placeEntry at member
      split at member
      · rcases List.mem_cons.mp member with rfl | rest
        · exact Or.inl rfl
        · exact Or.inr ⟨entry, rest, rfl⟩
      · split at member
        · rcases List.mem_cons.mp member with rfl | rest
          · exact Or.inl rfl
          · exact Or.inr ⟨entry, List.mem_cons_of_mem _ rest, rfl⟩
        · rcases List.mem_cons.mp member with rfl | rest
          · exact Or.inr ⟨entry, List.mem_cons_self, rfl⟩
          · rcases induction rest with same | ⟨old, oldMember, same⟩
            · exact Or.inl same
            · exact Or.inr ⟨old, List.mem_cons_of_mem _ oldMember, same⟩

theorem placeEntry_sorted (resolve : Value → Value) (key : Nat) (value : Value)
    {entries : List (Nat × Value)}
    (sorted : entries.Pairwise (fun left right => left.1 < right.1)) :
    (placeEntry resolve key value entries).Pairwise
      (fun left right => left.1 < right.1) := by
  induction entries with
  | nil => simp [placeEntry]
  | cons head tail induction =>
      have parts := List.pairwise_cons.mp sorted
      unfold placeEntry
      split
      next before =>
        refine List.pairwise_cons.mpr ⟨?_, sorted⟩
        intro entry member
        rcases List.mem_cons.mp member with rfl | rest
        · exact before
        · exact Nat.lt_trans before (parts.1 _ rest)
      next notBefore =>
        split
        next same =>
          refine List.pairwise_cons.mpr ⟨?_, parts.2⟩
          intro entry member
          exact same ▸ parts.1 _ member
        next different =>
          refine List.pairwise_cons.mpr ⟨?_, induction parts.2⟩
          intro entry member
          rcases keys_placeEntry resolve key value member with same | ⟨old, rest, same⟩
          · omega
          · exact same ▸ parts.1 _ rest

def insertWith (map : OrderedMap Value) (resolve : Value → Value) (key : Nat)
    (value : Value) : OrderedMap Value :=
  ⟨placeEntry resolve key value map.entries,
    placeEntry_sorted resolve key value map.sorted⟩

/-- `std::map::insert`: a value already stored at the key stays. -/
def insert (map : OrderedMap Value) (key : Nat) (value : Value) : OrderedMap Value :=
  map.insertWith id key value

/-- Assignment through `operator[]`: a value already stored at the key is
replaced. -/
def assign (map : OrderedMap Value) (key : Nat) (value : Value) : OrderedMap Value :=
  map.insertWith (fun _ => value) key value

theorem mem_placeEntry_absent (resolve : Value → Value) {key : Nat} (value : Value)
    {entries : List (Nat × Value)} (absent : ∀ entry ∈ entries, entry.1 ≠ key)
    (entry : Nat × Value) :
    entry ∈ placeEntry resolve key value entries ↔
      entry = (key, value) ∨ entry ∈ entries := by
  induction entries with
  | nil => simp [placeEntry]
  | cons head tail induction =>
      have rest := induction fun other member =>
        absent other (List.mem_cons_of_mem _ member)
      have fresh : key ≠ head.1 := fun same =>
        absent head List.mem_cons_self same.symm
      unfold placeEntry
      split
      · simp
      · simp only [List.mem_cons, rest]
        tauto

theorem mem_insert (map : OrderedMap Value) {key : Nat} (value : Value)
    (absent : map.find? key = none) (entry : Nat × Value) :
    entry ∈ (map.insert key value).entries ↔
      entry = (key, value) ∨ entry ∈ map.entries :=
  mem_placeEntry_absent id value ((map.find?_eq_none_iff key).mp absent) entry

theorem mem_placeEntry_const {key : Nat} (value : Value)
    {entries : List (Nat × Value)}
    (sorted : entries.Pairwise (fun left right => left.1 < right.1))
    (entry : Nat × Value) :
    entry ∈ placeEntry (fun _ => value) key value entries ↔
      entry = (key, value) ∨ (entry ∈ entries ∧ entry.1 ≠ key) := by
  induction entries with
  | nil => simp [placeEntry]
  | cons head tail induction =>
      have parts := List.pairwise_cons.mp sorted
      have rest := induction parts.2
      unfold placeEntry
      split
      next before =>
        have later : ∀ other ∈ head :: tail, other.1 ≠ key := by
          intro other member
          rcases List.mem_cons.mp member with rfl | member
          · omega
          · have := parts.1 _ member
            omega
        simp only [List.mem_cons]
        constructor
        · rintro (equal | member)
          · exact Or.inl equal
          · exact Or.inr ⟨member, later _ (List.mem_cons.mpr member)⟩
        · rintro (equal | ⟨member, _⟩)
          · exact Or.inl equal
          · exact Or.inr member
      next notBefore =>
        split
        next same =>
          subst same
          simp only [List.mem_cons]
          constructor
          · rintro (equal | member)
            · exact Or.inl equal
            · exact Or.inr ⟨Or.inr member, Nat.ne_of_gt (parts.1 _ member)⟩
          · rintro (equal | ⟨equal | member, different⟩)
            · exact Or.inl equal
            · exact absurd (congrArg Prod.fst equal) different
            · exact Or.inr member
        next different =>
          simp only [List.mem_cons, rest]
          constructor
          · rintro (equal | equal | ⟨member, other⟩)
            · exact Or.inr ⟨Or.inl equal, fun same => different (equal ▸ same.symm)⟩
            · exact Or.inl equal
            · exact Or.inr ⟨Or.inr member, other⟩
          · rintro (equal | ⟨equal | member, other⟩)
            · exact Or.inr (Or.inl equal)
            · exact Or.inl equal
            · exact Or.inr (Or.inr ⟨member, other⟩)

theorem mem_assign (map : OrderedMap Value) (key : Nat) (value : Value)
    (entry : Nat × Value) :
    entry ∈ (map.assign key value).entries ↔
      entry = (key, value) ∨ (entry ∈ map.entries ∧ entry.1 ≠ key) :=
  mem_placeEntry_const value map.sorted entry

theorem placeEntry_last (resolve : Value → Value) {key : Nat} (value : Value)
    {entries : List (Nat × Value)} (largest : ∀ entry ∈ entries, entry.1 < key) :
    placeEntry resolve key value entries = entries ++ [(key, value)] := by
  induction entries with
  | nil => rfl
  | cons head tail induction =>
      have below := largest head List.mem_cons_self
      have rest := induction fun entry member =>
        largest entry (List.mem_cons_of_mem _ member)
      unfold placeEntry
      rw [if_neg (by omega), if_neg (by omega), rest]
      rfl

theorem entries_insert_last (map : OrderedMap Value) {key : Nat} (value : Value)
    (largest : ∀ entry ∈ map.entries, entry.1 < key) :
    (map.insert key value).entries = map.entries ++ [(key, value)] :=
  placeEntry_last id value largest

/-! Loops that erase entries while they iterate. -/

def eraseWhere (map : OrderedMap Value) (doomed : Nat → Bool) : OrderedMap Value :=
  ⟨map.entries.filter (fun entry => !doomed entry.1), map.sorted.filter _⟩

@[simp] theorem entries_eraseWhere (map : OrderedMap Value) (doomed : Nat → Bool) :
    (map.eraseWhere doomed).entries =
      map.entries.filter (fun entry => !doomed entry.1) :=
  rfl

/-- The map left by a loop that only erases entries and rewrites values. -/
def ofKeySublist (map : OrderedMap Value) (entries : List (Nat × Value))
    (kept : List.Sublist (entries.map Prod.fst) (map.entries.map Prod.fst)) :
    OrderedMap Value :=
  ⟨entries, by
    have keys := List.pairwise_map.mpr map.sorted
    exact List.pairwise_map.mp (keys.sublist kept)⟩

@[simp] theorem entries_ofKeySublist (map : OrderedMap Value)
    (entries : List (Nat × Value))
    (kept : List.Sublist (entries.map Prod.fst) (map.entries.map Prod.fst)) :
    (map.ofKeySublist entries kept).entries = entries :=
  rfl

end OrderedMap

end Sponge
