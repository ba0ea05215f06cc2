import Mathlib.Data.Finset.Card
import Mathlib.Data.List.Infix
import Mathlib.Order.Interval.Finset.Nat
import Mathlib.Tactic

/-! Positioned fragments of a sequence: a start position and the symbols from
there on. -/

namespace Sponge

abbrev Fragment (Symbol : Type) := Nat × List Symbol

namespace Fragment

variable {Symbol : Type}

def stop (fragment : Fragment Symbol) : Nat :=
  fragment.1 + fragment.2.length

def Covers (fragment : Fragment Symbol) (position : Nat) : Prop :=
  fragment.1 ≤ position ∧ position < fragment.stop

/-- The fragment repeats what the stream has at its positions. -/
def Excerpt (stream : List Symbol) (fragment : Fragment Symbol) : Prop :=
  fragment.2 <+: stream.drop fragment.1

@[simp] theorem stop_mk (first : Nat) (symbols : List Symbol) :
    stop (first, symbols) = first + symbols.length :=
  rfl

theorem Excerpt.take {stream : List Symbol} {first : Nat} {symbols : List Symbol}
    (excerpt : Excerpt stream (first, symbols)) (count : Nat) :
    Excerpt stream (first, symbols.take count) :=
  (List.take_prefix count symbols).trans excerpt

theorem Excerpt.extend {stream longer : List Symbol} {fragment : Fragment Symbol}
    (excerpt : Excerpt stream fragment) (grows : stream <+: longer) :
    Excerpt longer fragment :=
  List.IsPrefix.trans excerpt (grows.drop fragment.1)

theorem Excerpt.stop_le {stream : List Symbol} {fragment : Fragment Symbol}
    (excerpt : Excerpt stream fragment) (nonempty : 0 < fragment.2.length) :
    fragment.stop ≤ stream.length := by
  have length := List.IsPrefix.length_le excerpt
  rw [List.length_drop] at length
  unfold stop
  omega

theorem Excerpt.take_append {stream : List Symbol} {front : Nat}
    {symbols : List Symbol} (excerpt : Excerpt stream (front, symbols)) :
    stream.take front ++ symbols = stream.take (front + symbols.length) := by
  rw [List.take_add]
  exact congrArg (stream.take front ++ ·) (List.prefix_iff_eq_take.mp excerpt)

/-! Where symbols come from. -/

/-- Every symbol of the fragment is vouched for at its position. -/
def Vouched (vouches : Nat → Symbol → Prop) (fragment : Fragment Symbol) : Prop :=
  ∀ offset symbol, fragment.2[offset]? = some symbol → vouches (fragment.1 + offset) symbol

section

variable {vouches : Nat → Symbol → Prop}

theorem excerpt_iff_vouched {stream : List Symbol} {fragment : Fragment Symbol} :
    fragment.Excerpt stream ↔
      fragment.Vouched (fun position symbol => stream[position]? = some symbol) := by
  simp only [Excerpt, Vouched, List.prefix_iff_getElem?, List.getElem?_drop]
  constructor
  · intro agrees offset symbol found
    obtain ⟨inside, rfl⟩ := List.getElem?_eq_some_iff.mp found
    exact agrees offset inside
  · intro agrees offset inside
    exact agrees offset _ (List.getElem?_eq_getElem inside)

theorem vouched_nil (first : Nat) : Vouched vouches (first, []) :=
  fun _ _ found => by simp at found

theorem Vouched.mono {weaker : Nat → Symbol → Prop} {fragment : Fragment Symbol}
    (vouched : fragment.Vouched vouches)
    (implies : ∀ position symbol, vouches position symbol → weaker position symbol) :
    fragment.Vouched weaker :=
  fun offset symbol found => implies _ _ (vouched offset symbol found)

theorem Vouched.drop {first : Nat} {symbols : List Symbol}
    (vouched : Vouched vouches (first, symbols)) (count : Nat) :
    Vouched vouches (first + count, symbols.drop count) := by
  intro offset symbol found
  rw [List.getElem?_drop] at found
  rw [Nat.add_assoc]
  exact vouched _ symbol found

theorem Vouched.append {first : Nat} {front back : List Symbol}
    (left : Vouched vouches (first, front))
    (right : Vouched vouches (first + front.length, back)) :
    Vouched vouches (first, front ++ back) := by
  intro offset symbol found
  rw [List.getElem?_append] at found
  split at found
  next => exact left offset symbol found
  next beyond =>
    have placed := right _ symbol found
    rwa [show first + front.length + (offset - front.length) = first + offset by omega]
      at placed

end

/-! The set of positions a list of fragments covers, and its size. -/

def spans : List (Fragment Symbol) → Finset Nat
  | [] => ∅
  | fragment :: rest => Finset.Ico fragment.1 fragment.stop ∪ spans rest

theorem mem_spans {fragments : List (Fragment Symbol)} {position : Nat} :
    position ∈ spans fragments ↔ ∃ fragment ∈ fragments, fragment.Covers position := by
  induction fragments with
  | nil => simp [spans]
  | cons fragment rest induction => simp [spans, induction, Covers]

/-- Each fragment ends before the next one starts. -/
def Separated (fragments : List (Fragment Symbol)) : Prop :=
  fragments.Pairwise (fun left right => left.stop ≤ right.1)

theorem Separated.stop_le {fragments : List (Fragment Symbol)}
    (separated : Separated fragments) {left right : Fragment Symbol}
    (leftMember : left ∈ fragments) (rightMember : right ∈ fragments)
    (ordered : left.1 < right.1) : left.stop ≤ right.1 := by
  induction fragments with
  | nil => simp at leftMember
  | cons first rest induction =>
      have parts := List.pairwise_cons.mp separated
      rcases List.mem_cons.mp leftMember with rfl | leftLater
      · rcases List.mem_cons.mp rightMember with rfl | rightLater
        · exact absurd ordered (Nat.lt_irrefl _)
        · exact parts.1 right rightLater
      · rcases List.mem_cons.mp rightMember with rfl | rightLater
        · have apart := parts.1 left leftLater
          unfold stop at apart
          omega
        · exact induction parts.2 leftLater rightLater

theorem spans_subset {part whole : List (Fragment Symbol)}
    (sublist : List.Sublist part whole) : spans part ⊆ spans whole := by
  intro position covered
  obtain ⟨fragment, member, covers⟩ := mem_spans.mp covered
  exact mem_spans.mpr ⟨fragment, sublist.subset member, covers⟩

theorem card_spans {fragments : List (Fragment Symbol)}
    (separated : Separated fragments) :
    (spans fragments).card = (fragments.map (fun fragment => fragment.2.length)).sum := by
  induction fragments with
  | nil => rfl
  | cons fragment rest induction =>
      have parts := List.pairwise_cons.mp separated
      have disjoint : Disjoint (Finset.Ico fragment.1 fragment.stop) (spans rest) := by
        rw [Finset.disjoint_left]
        intro position inside covered
        obtain ⟨other, member, low, _⟩ := mem_spans.mp covered
        have ordered := parts.1 other member
        have := (Finset.mem_Ico.mp inside).2
        omega
      simp only [spans, List.map_cons, List.sum_cons]
      rw [Finset.card_union_of_disjoint disjoint, induction parts.2, Nat.card_Ico]
      simp [stop]

/-! Handing out the symbols from a front position on. Fragments are visited in
order of their start; one that reaches past the front is consumed, one that lies
behind it is passed over. -/

def drain (front : Nat) :
    List (Fragment Symbol) → List Symbol × List (Fragment Symbol)
  | [] => ([], [])
  | fragment :: rest =>
      if fragment.1 ≤ front then
        if front < fragment.stop then
          (fragment.2.drop (front - fragment.1) ++ (drain fragment.stop rest).1,
            (drain fragment.stop rest).2)
        else
          ((drain front rest).1, fragment :: (drain front rest).2)
      else
        ([], fragment :: rest)

theorem stop_of_reaches {front : Nat} {fragment : Fragment Symbol}
    (starts : fragment.1 ≤ front) (ends : front < fragment.stop) :
    front + (fragment.2.drop (front - fragment.1)).length = fragment.stop := by
  unfold stop at *
  rw [List.length_drop]
  omega

theorem drain_sublist (front : Nat) (fragments : List (Fragment Symbol)) :
    List.Sublist (drain front fragments).2 fragments := by
  induction fragments generalizing front with
  | nil => exact List.Sublist.refl _
  | cons fragment rest induction =>
      unfold drain
      split
      · split
        · exact (induction _).cons _
        · exact (induction _).cons_cons _
      · exact List.Sublist.refl _

theorem drain_vouched {vouches : Nat → Symbol → Prop} (front : Nat)
    {fragments : List (Fragment Symbol)}
    (vouched : ∀ fragment ∈ fragments, fragment.Vouched vouches) :
    Vouched vouches (front, (drain front fragments).1) := by
  induction fragments generalizing front with
  | nil => exact vouched_nil front
  | cons fragment rest induction =>
      have restVouched : ∀ other ∈ rest, other.Vouched vouches :=
        fun other member => vouched other (List.mem_cons_of_mem _ member)
      unfold drain
      split
      next starts =>
        split
        next ends =>
          have piece := Vouched.drop (vouched fragment List.mem_cons_self)
            (front - fragment.1)
          rw [show fragment.1 + (front - fragment.1) = front by omega] at piece
          refine piece.append ?_
          rw [stop_of_reaches starts ends]
          exact induction _ restVouched
        next => exact induction _ restVouched
      next => exact vouched_nil front

theorem drain_excerpt {stream : List Symbol} (front : Nat)
    {fragments : List (Fragment Symbol)}
    (excerpts : ∀ fragment ∈ fragments, fragment.Excerpt stream) :
    Excerpt stream (front, (drain front fragments).1) := by
  simp only [excerpt_iff_vouched] at excerpts ⊢
  exact drain_vouched front excerpts

theorem drain_within {front limit : Nat} {fragments : List (Fragment Symbol)}
    (frontBound : front ≤ limit)
    (bounded : ∀ fragment ∈ fragments, fragment.1 < fragment.stop →
      fragment.stop ≤ limit) :
    front + (drain front fragments).1.length ≤ limit := by
  induction fragments generalizing front with
  | nil => simpa [drain] using frontBound
  | cons fragment rest induction =>
      have restBounded : ∀ other ∈ rest, other.1 < other.stop → other.stop ≤ limit :=
        fun other member => bounded other (List.mem_cons_of_mem _ member)
      unfold drain
      split
      next starts =>
        split
        next ends =>
          have reached := stop_of_reaches starts ends
          have tail := induction
            (bounded fragment List.mem_cons_self (Nat.lt_of_le_of_lt starts ends)) restBounded
          rw [List.length_append]
          omega
        next => exact induction frontBound restBounded
      next => simpa using frontBound

theorem drain_le {front limit : Nat} {fragments : List (Fragment Symbol)}
    (frontBound : front ≤ limit)
    (bounded : ∀ fragment ∈ fragments, fragment.stop ≤ limit) :
    front + (drain front fragments).1.length ≤ limit :=
  drain_within frontBound (fun fragment member _ => bounded fragment member)

theorem drain_idle {front : Nat} {fragments : List (Fragment Symbol)}
    (ahead : ∀ fragment ∈ fragments, fragment.1 < fragment.stop → front < fragment.1) :
    drain front fragments = ([], fragments) := by
  induction fragments with
  | nil => rfl
  | cons fragment rest induction =>
      have first := ahead fragment List.mem_cons_self
      have tail := induction fun other member => ahead other (List.mem_cons_of_mem _ member)
      unfold drain
      split
      next starts =>
        rw [if_neg (by omega), tail]
      next => rfl

theorem drain_ahead {front : Nat} {fragments : List (Fragment Symbol)}
    (sorted : fragments.Pairwise (fun left right => left.1 < right.1))
    (rising : fragments.Pairwise (fun left right => left.1 < left.stop →
      right.1 < right.stop → left.stop < right.stop))
    (ahead : ∀ fragment ∈ fragments, fragment.1 < fragment.stop → front < fragment.stop) :
    ∀ fragment ∈ (drain front fragments).2, fragment.1 < fragment.stop →
      front + (drain front fragments).1.length < fragment.1 := by
  induction fragments generalizing front with
  | nil =>
      intro fragment member
      simp [drain] at member
  | cons first rest induction =>
      have keys := List.pairwise_cons.mp sorted
      have stops := List.pairwise_cons.mp rising
      have restAhead : ∀ other ∈ rest, other.1 < other.stop → front < other.stop :=
        fun other member => ahead other (List.mem_cons_of_mem _ member)
      unfold drain
      split
      next starts =>
        split
        next ends =>
          have reached := stop_of_reaches starts ends
          have tail := @induction first.stop keys.2 stops.2 fun other member =>
            stops.1 other member (Nat.lt_of_le_of_lt starts ends)
          intro fragment member nonempty
          have beyond := tail fragment member nonempty
          rw [List.length_append]
          omega
        next behind =>
          intro fragment member nonempty
          rcases List.mem_cons.mp member with rfl | member
          · exact absurd (ahead fragment List.mem_cons_self nonempty) behind
          · exact induction keys.2 stops.2 restAhead fragment member nonempty
      next beyond =>
        intro fragment member _
        rw [List.length_nil, Nat.add_zero]
        rcases List.mem_cons.mp member with rfl | member
        · exact Nat.not_le.mp beyond
        · have := keys.1 fragment member
          omega

/-- Draining moves the front over positions it hands out and loses none. -/
theorem drain_covers (front : Nat) (fragments : List (Fragment Symbol))
    (position : Nat) :
    (position < front + (drain front fragments).1.length ∨
        position ∈ spans (drain front fragments).2) ↔
      (position < front ∨ position ∈ spans fragments) := by
  induction fragments generalizing front with
  | nil => simp [drain, spans]
  | cons fragment rest induction =>
      unfold drain
      split
      next starts =>
        split
        next ends =>
          have reached := stop_of_reaches starts ends
          have tail := induction fragment.stop
          simp only [List.length_append, spans, Finset.mem_union, Finset.mem_Ico]
          rw [← Nat.add_assoc, reached, tail]
          constructor
          · rintro (below | inRest)
            · by_cases old : position < front
              · exact Or.inl old
              · exact Or.inr (Or.inl ⟨by omega, below⟩)
            · exact Or.inr (Or.inr inRest)
          · rintro (old | inside | inRest)
            · exact Or.inl (by omega)
            · exact Or.inl inside.2
            · exact Or.inr inRest
        next behind =>
          have tail := induction front
          simp only [spans, Finset.mem_union, Finset.mem_Ico]
          constructor
          · rintro (below | inside | inRest)
            · rcases tail.mp (Or.inl below) with old | inRest
              · exact Or.inl old
              · exact Or.inr (Or.inr inRest)
            · exact Or.inr (Or.inl inside)
            · rcases tail.mp (Or.inr inRest) with old | inRest
              · exact Or.inl old
              · exact Or.inr (Or.inr inRest)
          · rintro (old | inside | inRest)
            · rcases tail.mpr (Or.inl old) with below | kept
              · exact Or.inl below
              · exact Or.inr (Or.inr kept)
            · exact Or.inr (Or.inl inside)
            · rcases tail.mpr (Or.inr inRest) with below | kept
              · exact Or.inl below
              · exact Or.inr (Or.inr kept)
      next => simp

/-! Joining overlapping neighbours. Adjacent fragments stay apart. -/

def coalesceFrom (old : Fragment Symbol) :
    List (Fragment Symbol) → List (Fragment Symbol)
  | [] => [old]
  | fragment :: rest =>
      if fragment.1 < old.stop then
        if fragment.stop ≤ old.stop then
          coalesceFrom old rest
        else
          coalesceFrom
            (old.1, old.2 ++ fragment.2.drop (old.stop - fragment.1)) rest
      else
        old :: coalesceFrom fragment rest

def coalesce : List (Fragment Symbol) → List (Fragment Symbol)
  | [] => []
  | fragment :: rest => coalesceFrom fragment rest

theorem stop_of_joined {old fragment : Fragment Symbol}
    (overlaps : fragment.1 < old.stop) (exceeds : old.stop < fragment.stop) :
    stop (old.1, old.2 ++ fragment.2.drop (old.stop - fragment.1)) =
      fragment.stop := by
  unfold stop at *
  simp only [List.length_append, List.length_drop]
  omega

theorem coalesceFrom_vouched {vouches : Nat → Symbol → Prop} {old : Fragment Symbol}
    {fragments : List (Fragment Symbol)} (oldVouched : old.Vouched vouches)
    (vouched : ∀ fragment ∈ fragments, fragment.Vouched vouches) :
    ∀ fragment ∈ coalesceFrom old fragments, fragment.Vouched vouches := by
  induction fragments generalizing old with
  | nil =>
      intro fragment member
      rw [coalesceFrom, List.mem_singleton] at member
      exact member ▸ oldVouched
  | cons next rest induction =>
      have restVouched : ∀ other ∈ rest, other.Vouched vouches :=
        fun other member => vouched other (List.mem_cons_of_mem _ member)
      unfold coalesceFrom
      split
      next overlaps =>
        split
        · exact induction oldVouched restVouched
        · refine induction (Vouched.append oldVouched ?_) restVouched
          have piece := Vouched.drop (vouched next List.mem_cons_self)
            (old.stop - next.1)
          rwa [show next.1 + (old.stop - next.1) = old.1 + old.2.length by
            unfold stop at *; omega] at piece
      next =>
        intro fragment member
        rcases List.mem_cons.mp member with rfl | member
        · exact oldVouched
        · exact induction (vouched next List.mem_cons_self) restVouched
            fragment member

theorem coalesceFrom_le {limit : Nat} {old : Fragment Symbol}
    {fragments : List (Fragment Symbol)} (oldBound : old.stop ≤ limit)
    (bounded : ∀ fragment ∈ fragments, fragment.stop ≤ limit) :
    ∀ fragment ∈ coalesceFrom old fragments, fragment.stop ≤ limit := by
  induction fragments generalizing old with
  | nil =>
      intro fragment member
      rw [coalesceFrom, List.mem_singleton] at member
      exact member ▸ oldBound
  | cons next rest induction =>
      have nextBound := bounded next List.mem_cons_self
      have restBounded : ∀ other ∈ rest, other.stop ≤ limit :=
        fun other member => bounded other (List.mem_cons_of_mem _ member)
      unfold coalesceFrom
      split
      next overlaps =>
        split
        · exact induction oldBound restBounded
        next exceeds =>
          refine induction ?_ restBounded
          rw [stop_of_joined overlaps (Nat.not_le.mp exceeds)]
          exact nextBound
      next =>
        intro fragment member
        rcases List.mem_cons.mp member with rfl | member
        · exact oldBound
        · exact induction nextBound restBounded fragment member

theorem coalesceFrom_keys (old : Fragment Symbol)
    (fragments : List (Fragment Symbol)) :
    List.Sublist ((coalesceFrom old fragments).map Prod.fst)
      (old.1 :: fragments.map Prod.fst) := by
  induction fragments generalizing old with
  | nil => exact List.Sublist.refl _
  | cons next rest induction =>
      have skip : List.Sublist (old.1 :: rest.map Prod.fst)
          (old.1 :: (next :: rest).map Prod.fst) :=
        (List.sublist_cons_self _ _).cons_cons _
      unfold coalesceFrom
      split
      · split
        · exact (induction old).trans skip
        · exact (induction _).trans skip
      · exact (induction next).cons_cons _

theorem spans_coalesceFrom {old : Fragment Symbol}
    {fragments : List (Fragment Symbol)}
    (sorted : (old :: fragments).Pairwise (fun left right => left.1 < right.1)) :
    spans (coalesceFrom old fragments) = spans (old :: fragments) := by
  induction fragments generalizing old with
  | nil => rfl
  | cons next rest induction =>
      have parts := List.pairwise_cons.mp sorted
      have restParts := List.pairwise_cons.mp parts.2
      have ordered : old.1 < next.1 := parts.1 next List.mem_cons_self
      have skipped : ∀ symbols : List Symbol,
          ((old.1, symbols) :: rest).Pairwise
            (fun left right => left.1 < right.1) := fun symbols =>
        List.pairwise_cons.mpr
          ⟨fun other member => parts.1 other (List.mem_cons_of_mem _ member),
            restParts.2⟩
      unfold coalesceFrom
      split
      next overlaps =>
        split
        next nested =>
          rw [@induction old (skipped old.2)]
          ext position
          simp only [spans, Finset.mem_union, Finset.mem_Ico]
          constructor
          · rintro (inside | inRest)
            · exact Or.inl inside
            · exact Or.inr (Or.inr inRest)
          · rintro (inside | inside | inRest)
            · exact Or.inl inside
            · exact Or.inl (by omega)
            · exact Or.inr inRest
        next exceeds =>
          rw [induction (skipped _)]
          ext position
          have joined := stop_of_joined overlaps (Nat.not_le.mp exceeds)
          simp only [spans, Finset.mem_union, Finset.mem_Ico, joined]
          constructor
          · rintro (inside | inRest)
            · by_cases early : position < old.stop
              · exact Or.inl ⟨inside.1, early⟩
              · exact Or.inr (Or.inl (by omega))
            · exact Or.inr (Or.inr inRest)
          · rintro (inside | inside | inRest)
            · exact Or.inl (by omega)
            · exact Or.inl (by omega)
            · exact Or.inr inRest
      next =>
        simp only [spans]
        rw [induction parts.2]
        rfl

theorem separated_coalesceFrom {old : Fragment Symbol}
    {fragments : List (Fragment Symbol)}
    (sorted : (old :: fragments).Pairwise (fun left right => left.1 < right.1)) :
    Separated (coalesceFrom old fragments) := by
  induction fragments generalizing old with
  | nil => exact List.pairwise_singleton _ _
  | cons next rest induction =>
      have parts := List.pairwise_cons.mp sorted
      have restParts := List.pairwise_cons.mp parts.2
      have skipped : ∀ symbols : List Symbol,
          ((old.1, symbols) :: rest).Pairwise
            (fun left right => left.1 < right.1) := fun symbols =>
        List.pairwise_cons.mpr
          ⟨fun other member => parts.1 other (List.mem_cons_of_mem _ member),
            restParts.2⟩
      unfold coalesceFrom
      split
      · split
        · exact induction (skipped old.2)
        · exact induction (skipped _)
      next apart =>
        refine List.pairwise_cons.mpr ⟨?_, induction parts.2⟩
        intro fragment member
        -- Every key kept behind `old` is at least the key of `next`.
        have key := (coalesceFrom_keys next rest).subset
          (List.mem_map_of_mem member)
        rcases List.mem_cons.mp key with same | later
        · omega
        · obtain ⟨other, otherMember, same⟩ := List.mem_map.mp later
          have := restParts.1 other otherMember
          omega

/-! The same for the whole list. -/

section Coalesce

variable {fragments : List (Fragment Symbol)}

theorem coalesce_vouched {vouches : Nat → Symbol → Prop}
    (vouched : ∀ fragment ∈ fragments, fragment.Vouched vouches) :
    ∀ fragment ∈ coalesce fragments, fragment.Vouched vouches := by
  cases fragments with
  | nil => exact vouched
  | cons old rest =>
      exact coalesceFrom_vouched (vouched old List.mem_cons_self)
        fun fragment member => vouched fragment (List.mem_cons_of_mem _ member)

theorem coalesce_excerpt {stream : List Symbol}
    (excerpts : ∀ fragment ∈ fragments, fragment.Excerpt stream) :
    ∀ fragment ∈ coalesce fragments, fragment.Excerpt stream := by
  simp only [excerpt_iff_vouched] at excerpts ⊢
  exact coalesce_vouched excerpts

theorem coalesce_le {limit : Nat} (bounded : ∀ fragment ∈ fragments, fragment.stop ≤ limit) :
    ∀ fragment ∈ coalesce fragments, fragment.stop ≤ limit := by
  cases fragments with
  | nil => exact bounded
  | cons old rest =>
      exact coalesceFrom_le (bounded old List.mem_cons_self)
        fun fragment member => bounded fragment (List.mem_cons_of_mem _ member)

variable (sorted : fragments.Pairwise (fun left right => left.1 < right.1))
include sorted

theorem spans_coalesce : spans (coalesce fragments) = spans fragments := by
  cases fragments with
  | nil => rfl
  | cons old rest => exact spans_coalesceFrom sorted

theorem separated_coalesce : Separated (coalesce fragments) := by
  cases fragments with
  | nil => exact List.Pairwise.nil
  | cons old rest => exact separated_coalesceFrom sorted

end Coalesce

end Fragment

end Sponge
