import Sponge.StreamReassembler

namespace Sponge.StreamReassembler

open Fragment

/-! What the replace rule stores. -/

theorem mem_store {stream : OrderedMap (List Byte)} {index : Nat}
    {ndata : List Byte} {entry : Fragment Byte}
    (member : entry ∈ (store stream index ndata).entries) :
    entry = (index, ndata) ∨ entry ∈ stream.entries := by
  unfold store at member
  cases found : stream.find? index with
  | none =>
      rw [found] at member
      exact (stream.mem_insert ndata found entry).mp member
  | some old =>
      simp only [found] at member
      split at member
      · rcases (stream.mem_assign index ndata entry).mp member with equal | kept
        · exact Or.inl equal
        · exact Or.inr kept.1
      · exact Or.inr member

theorem mem_store_self {stream : OrderedMap (List Byte)} {index : Nat} {ndata : List Byte}
    (longer : ∀ old, stream.find? index = some old → old.length < ndata.length) :
    (index, ndata) ∈ (store stream index ndata).entries := by
  unfold store
  cases found : stream.find? index with
  | none => exact (stream.mem_insert ndata found _).mpr (Or.inl rfl)
  | some old =>
      simp only [if_pos (longer old found)]
      exact (stream.mem_assign index ndata _).mpr (Or.inl rfl)

/-- Storing adds exactly the positions of the string: a string that gives way
starts at the same index and is shorter, one that is kept is at least as long. -/
theorem mem_spans_store (stream : OrderedMap (List Byte)) (index : Nat)
    (ndata : List Byte) (position : Nat) :
    position ∈ spans (store stream index ndata).entries ↔
      position ∈ spans stream.entries ∨
        (index ≤ position ∧ position < index + ndata.length) := by
  simp only [mem_spans]
  cases found : stream.find? index with
  | none =>
      have entries := stream.mem_insert ndata found
      simp only [store, found, entries]
      constructor
      · rintro ⟨entry, rfl | member, covers⟩
        · exact Or.inr covers
        · exact Or.inl ⟨entry, member, covers⟩
      · rintro (⟨entry, member, covers⟩ | inside)
        · exact ⟨entry, Or.inr member, covers⟩
        · exact ⟨_, Or.inl rfl, inside⟩
  | some old =>
      have oldMember := (stream.find?_eq_some_iff index old).mp found
      simp only [store, found]
      split
      next longer =>
        simp only [stream.mem_assign index ndata]
        constructor
        · rintro ⟨entry, rfl | ⟨member, _⟩, covers⟩
          · exact Or.inr covers
          · exact Or.inl ⟨entry, member, covers⟩
        · rintro (⟨entry, member, covers⟩ | inside)
          · by_cases same : entry.1 = index
            · obtain ⟨key, value⟩ := entry
              obtain rfl : key = index := same
              obtain rfl := stream.value_unique member oldMember
              refine ⟨_, Or.inl rfl, covers.1, ?_⟩
              have := covers.2
              simp only [stop_mk] at this ⊢
              omega
            · exact ⟨entry, Or.inr ⟨member, same⟩, covers⟩
          · exact ⟨_, Or.inl rfl, inside⟩
      next notLonger =>
        constructor
        · exact fun covered => Or.inl covered
        · rintro (covered | inside)
          · exact covered
          · refine ⟨(index, old), oldMember, inside.1, ?_⟩
            rw [stop_mk]
            omega

/-! Away from the end of the `size_t` range the two loops are `drain` and
`coalesce`. -/

theorem entryEnd_eq {entry : Fragment Byte} (fits : entry.stop < 2 ^ 64) :
    entryEnd entry = entry.stop :=
  SizeT.add_of_lt fits

theorem writeOut_within {output : ByteStream} {entries : List (Fragment Byte)}
    (valid : output.Valid) (word : output.bSize < 2 ^ 64)
    (fits : ∀ entry ∈ entries, entry.stop < 2 ^ 64)
    (bounded : ∀ entry ∈ entries, entry.1 < entry.stop →
      entry.stop ≤ output.readCount + output.bSize) :
    writeOut output output.writeCount entries =
      ({ output with
          bts := output.bts ++ (drain output.writeCount entries).1
          writeCount := output.writeCount +
            (drain output.writeCount entries).1.length },
        output.writeCount + (drain output.writeCount entries).1.length,
        (drain output.writeCount entries).2) := by
  induction entries generalizing output with
  | nil => simp [writeOut, drain]
  | cons entry rest induction =>
      have entryBound := bounded entry List.mem_cons_self
      have restFits : ∀ other ∈ rest, other.stop < 2 ^ 64 :=
        fun other member => fits other (List.mem_cons_of_mem _ member)
      have restBounded : ∀ other ∈ rest, other.1 < other.stop →
          other.stop ≤ output.readCount + output.bSize :=
        fun other member => bounded other (List.mem_cons_of_mem _ member)
      have ends := entryEnd_eq (fits entry List.mem_cons_self)
      simp only [writeOut, drain, ends]
      split
      next starts =>
        split
        next reaches =>
          have length := stop_of_reaches starts reaches
          have stop := entryBound (Nat.lt_of_le_of_lt starts reaches)
          have capacity := valid.remainingCapacity_eq word
          have counted := valid.counted
          have bound := valid.bounded
          -- The piece ends within the window, so the stream takes all of it.
          have taken := @ByteStream.write_of_fits output
            (entry.2.drop (output.writeCount - entry.1)) (by omega)
          have written : (output.write
              (entry.2.drop (output.writeCount - entry.1))).1.writeCount =
              entry.stop := by
            rw [taken]
            exact length
          have tail := induction (valid.write _) (by rw [taken]; exact word) restFits
            (by rw [taken]; exact restBounded)
          rw [written] at tail
          rw [tail, taken, List.length_append, ← Nat.add_assoc, length]
          simp [List.append_assoc]
        next =>
          have tail := induction valid word restFits restBounded
          rw [tail]
      next => simp

theorem writeOut_eq {output : ByteStream} (limit : Nat)
    {entries : List (Fragment Byte)} (valid : output.Valid)
    (room : limit = output.readCount + output.bSize) (fits : limit < 2 ^ 64)
    (bounded : ∀ entry ∈ entries, entry.stop ≤ limit) :
    writeOut output output.writeCount entries =
      ({ output with
          bts := output.bts ++ (drain output.writeCount entries).1
          writeCount := output.writeCount +
            (drain output.writeCount entries).1.length },
        output.writeCount + (drain output.writeCount entries).1.length,
        (drain output.writeCount entries).2) :=
  writeOut_within valid (by omega)
    (fun entry member => Nat.lt_of_le_of_lt (bounded entry member) fits)
    (fun entry member _ => room ▸ bounded entry member)

theorem mergeFrom_eq {old : Fragment Byte} {entries : List (Fragment Byte)}
    (oldFits : old.stop < 2 ^ 64)
    (fits : ∀ entry ∈ entries, entry.stop < 2 ^ 64) :
    mergeFrom old entries = coalesceFrom old entries := by
  induction entries generalizing old with
  | nil => rfl
  | cons entry rest induction =>
      have entryFits := fits entry List.mem_cons_self
      have restFits : ∀ other ∈ rest, other.stop < 2 ^ 64 :=
        fun other member => fits other (List.mem_cons_of_mem _ member)
      simp only [mergeFrom, coalesceFrom, entryEnd_eq oldFits, entryEnd_eq entryFits]
      split
      next overlaps =>
        split
        · exact induction oldFits restFits
        next exceeds =>
          refine induction ?_ restFits
          rw [stop_of_joined overlaps (Nat.not_le.mp exceeds)]
          exact entryFits
      next => rw [induction entryFits restFits]

theorem merge_eq {entries : List (Fragment Byte)}
    (fits : ∀ entry ∈ entries, entry.stop < 2 ^ 64) :
    merge entries = coalesce entries := by
  cases entries with
  | nil => rfl
  | cons entry rest =>
      exact mergeFrom_eq (fits entry List.mem_cons_self)
        fun other member => fits other (List.mem_cons_of_mem _ member)

/-! Entries behind the write pointer. The facts below hold of the wrapping
arithmetic as it is, for any strings and any capacity. -/

/-- No stored string reaches over the write pointer: what starts at or before it
also ends there. -/
def Settled (writePtr : Nat) (entries : List (Fragment Byte)) : Prop :=
  ∀ entry ∈ entries, entry.1 ≤ writePtr → entryEnd entry ≤ writePtr

theorem writeOut_writePtr_le (output : ByteStream) (writePtr : Nat)
    (entries : List (Fragment Byte)) :
    writePtr ≤ (writeOut output writePtr entries).2.1 := by
  induction entries generalizing output writePtr with
  | nil => exact Nat.le_refl _
  | cons entry rest induction =>
      unfold writeOut
      split
      · split
        next reaches => exact Nat.le_trans (Nat.le_of_lt reaches) (induction _ _)
        · exact induction _ _
      · exact Nat.le_refl _

theorem writeOut_settled (output : ByteStream) (writePtr : Nat)
    {entries : List (Fragment Byte)}
    (sorted : entries.Pairwise (fun left right => left.1 < right.1)) :
    Settled (writeOut output writePtr entries).2.1
      (writeOut output writePtr entries).2.2 := by
  induction entries generalizing output writePtr with
  | nil =>
      intro entry member
      simp [writeOut] at member
  | cons entry rest induction =>
      have parts := List.pairwise_cons.mp sorted
      unfold writeOut
      split
      next starts =>
        split
        next => exact induction _ _ parts.2
        next behind =>
          have grows := writeOut_writePtr_le output writePtr rest
          intro other member otherStarts
          rcases List.mem_cons.mp member with rfl | member
          · exact Nat.le_trans (Nat.not_lt.mp behind) grows
          · exact induction output writePtr parts.2 other member otherStarts
      next beyond =>
        intro other member otherStarts
        rcases List.mem_cons.mp member with rfl | member
        · exact absurd otherStarts beyond
        · have := parts.1 other member
          dsimp only at otherStarts
          omega

theorem entryEnd_joined {old entry : Fragment Byte} (overlaps : entry.1 < entryEnd old)
    (exceeds : entryEnd old < entryEnd entry) :
    entryEnd (old.1, old.2 ++ entry.2.drop (entryEnd old - entry.1)) = entryEnd entry := by
  have upper := SizeT.add_le entry.1 entry.2.length
  simp only [entryEnd, List.length_append, List.length_drop] at overlaps exceeds ⊢
  exact SizeT.add_sub_shift (by omega) (by omega)

theorem mergeFrom_settled {writePtr : Nat} {old : Fragment Byte}
    {entries : List (Fragment Byte)}
    (oldSettled : old.1 ≤ writePtr → entryEnd old ≤ writePtr)
    (settled : Settled writePtr entries) :
    Settled writePtr (mergeFrom old entries) := by
  induction entries generalizing old with
  | nil =>
      intro entry member
      rw [mergeFrom, List.mem_singleton] at member
      exact member ▸ oldSettled
  | cons entry rest induction =>
      have entrySettled := settled entry List.mem_cons_self
      have restSettled : Settled writePtr rest :=
        fun other member => settled other (List.mem_cons_of_mem _ member)
      unfold mergeFrom
      split
      next overlaps =>
        split
        · exact induction oldSettled restSettled
        next exceeds =>
          refine induction ?_ restSettled
          intro starts
          rw [entryEnd_joined overlaps (Nat.not_le.mp exceeds)]
          have := oldSettled starts
          exact entrySettled (by omega)
      next =>
        intro other member
        rcases List.mem_cons.mp member with rfl | member
        · exact oldSettled
        · exact induction entrySettled restSettled other member

theorem merge_settled {writePtr : Nat} {entries : List (Fragment Byte)}
    (settled : Settled writePtr entries) : Settled writePtr (merge entries) := by
  cases entries with
  | nil => exact settled
  | cons entry rest =>
      exact mergeFrom_settled (settled entry List.mem_cons_self)
        fun other member => settled other (List.mem_cons_of_mem _ member)

theorem mergeFrom_head (old : Fragment Byte) (entries : List (Fragment Byte)) :
    ∃ extra, (old.1, old.2 ++ extra) ∈ mergeFrom old entries := by
  induction entries generalizing old with
  | nil => exact ⟨[], by simp [mergeFrom]⟩
  | cons entry rest induction =>
      unfold mergeFrom
      split
      · split
        · exact induction old
        · obtain ⟨extra, kept⟩ := induction
            (old.1, old.2 ++ entry.2.drop (entryEnd old - entry.1))
          exact ⟨entry.2.drop (entryEnd old - entry.1) ++ extra, by
            rwa [← List.append_assoc]⟩
      · exact ⟨[], by simp⟩

theorem mergeFrom_keeps {entry old : Fragment Byte} {entries : List (Fragment Byte)}
    (sorted : entries.Pairwise (fun left right => left.1 < right.1))
    (apart : ∀ other ∈ old :: entries, other.1 < entry.1 → entryEnd other ≤ entry.1)
    (behind : old.1 < entry.1) (member : entry ∈ entries) :
    ∃ extra, (entry.1, entry.2 ++ extra) ∈ mergeFrom old entries := by
  induction entries generalizing old with
  | nil => simp at member
  | cons next rest induction =>
      have parts := List.pairwise_cons.mp sorted
      have oldApart := apart old List.mem_cons_self behind
      have restApart : ∀ other ∈ next :: rest, other.1 < entry.1 →
          entryEnd other ≤ entry.1 :=
        fun other inside => apart other (List.mem_cons_of_mem _ inside)
      unfold mergeFrom
      rcases List.mem_cons.mp member with rfl | later
      · rw [if_neg (Nat.not_lt.mpr oldApart)]
        obtain ⟨extra, kept⟩ := mergeFrom_head entry rest
        exact ⟨extra, List.mem_cons_of_mem _ kept⟩
      · have nextBehind : next.1 < entry.1 := parts.1 entry later
        have nextApart := restApart next List.mem_cons_self nextBehind
        split
        next overlaps =>
          split
          · refine induction parts.2 ?_ behind later
            intro other inside
            rcases List.mem_cons.mp inside with rfl | inside
            · exact fun _ => oldApart
            · exact restApart other (List.mem_cons_of_mem _ inside)
          next exceeds =>
            refine induction parts.2 ?_ behind later
            intro other inside
            rcases List.mem_cons.mp inside with rfl | inside
            · intro _
              rw [entryEnd_joined overlaps (Nat.not_le.mp exceeds)]
              exact nextApart
            · exact restApart other (List.mem_cons_of_mem _ inside)
        next =>
          obtain ⟨extra, kept⟩ := induction parts.2 restApart nextBehind later
          exact ⟨extra, List.mem_cons_of_mem _ kept⟩

theorem merge_keeps {entry : Fragment Byte} {entries : List (Fragment Byte)}
    (sorted : entries.Pairwise (fun left right => left.1 < right.1))
    (apart : ∀ other ∈ entries, other.1 < entry.1 → entryEnd other ≤ entry.1)
    (member : entry ∈ entries) :
    ∃ extra, (entry.1, entry.2 ++ extra) ∈ merge entries := by
  cases entries with
  | nil => simp at member
  | cons first rest =>
      have parts := List.pairwise_cons.mp sorted
      rcases List.mem_cons.mp member with rfl | later
      · exact mergeFrom_head entry rest
      · exact mergeFrom_keeps parts.2 apart (parts.1 entry later) later

theorem writeOut_of_settled (output : ByteStream) {writePtr : Nat}
    {entries : List (Fragment Byte)} (settled : Settled writePtr entries) :
    writeOut output writePtr entries = (output, writePtr, entries) := by
  induction entries with
  | nil => rfl
  | cons entry rest induction =>
      have restSettled : Settled writePtr rest :=
        fun other member => settled other (List.mem_cons_of_mem _ member)
      unfold writeOut
      split
      next starts =>
        have behind := settled entry List.mem_cons_self starts
        rw [if_neg (Nat.not_lt.mpr behind), induction restSettled]
      next => rfl

theorem writeOut_extends (output : ByteStream) (writePtr : Nat)
    (entries : List (Fragment Byte)) :
    ∃ extra, (writeOut output writePtr entries).1 =
      { output with
        bts := output.bts ++ extra
        writeCount := output.writeCount + extra.length } := by
  induction entries generalizing output writePtr with
  | nil => exact ⟨[], by simp [writeOut]⟩
  | cons entry rest induction =>
      unfold writeOut
      split
      · split
        · obtain ⟨extra, tail⟩ := induction
            (output.write (entry.2.drop (writePtr - entry.1))).1 (entryEnd entry)
          refine ⟨(entry.2.drop (writePtr - entry.1)).take output.remainingCapacity ++ extra,
            ?_⟩
          rw [tail, ByteStream.write_eq]
          simp [List.append_assoc, Nat.add_assoc]
        · exact induction output writePtr
      · exact ⟨[], by simp⟩

theorem writeOut_grows {output : ByteStream} {writePtr : Nat}
    {entries : List (Fragment Byte)}
    (sorted : entries.Pairwise (fun left right => left.1 < right.1))
    (room : 0 < output.remainingCapacity)
    (reaching : ∃ entry ∈ entries, entry.1 ≤ writePtr ∧ writePtr < entryEnd entry) :
    output.bts.length < (writeOut output writePtr entries).1.bts.length := by
  induction entries with
  | nil =>
      obtain ⟨entry, member, _⟩ := reaching
      simp at member
  | cons entry rest induction =>
      have parts := List.pairwise_cons.mp sorted
      obtain ⟨reacher, member, starts, ends⟩ := reaching
      have headStarts : entry.1 ≤ writePtr := by
        rcases List.mem_cons.mp member with rfl | member
        · exact starts
        · have := parts.1 reacher member
          omega
      unfold writeOut
      rw [if_pos headStarts]
      split
      next headEnds =>
        obtain ⟨extra, extended⟩ := writeOut_extends
          (output.write (entry.2.drop (writePtr - entry.1))).1 (entryEnd entry) rest
        have upper := SizeT.add_le entry.1 entry.2.length
        unfold entryEnd at headEnds extended ⊢
        rw [extended, ByteStream.write_eq]
        simp only [List.length_append, List.length_take, List.length_drop]
        omega
      next headBehind =>
        refine induction parts.2 ?_
        rcases List.mem_cons.mp member with rfl | member
        · exact absurd ends headBehind
        · exact ⟨reacher, member, starts, ends⟩

/-- Storing a string over which nothing reaches yet lets something reach over the
write pointer only if that string does, and is really stored. -/
theorem store_settled_iff {stream : OrderedMap (List Byte)} {writePtr : Nat}
    (settled : Settled writePtr stream.entries) (index : Nat) (ndata : List Byte) :
    Settled writePtr (store stream index ndata).entries ↔
      ¬(index ≤ writePtr ∧ writePtr < entryEnd (index, ndata) ∧
        ∀ old, stream.find? index = some old → old.length < ndata.length) := by
  constructor
  · rintro after ⟨starts, reaches, longer⟩
    exact Nat.not_le.mpr reaches (after _ (mem_store_self longer) starts)
  · intro harmless entry member starts
    unfold store at member
    cases found : stream.find? index with
    | none =>
        rw [found] at member
        rcases (stream.mem_insert ndata found entry).mp member with rfl | member
        · exact Nat.not_lt.mp fun reaches =>
            harmless ⟨starts, reaches, fun old same => by rw [found] at same; cases same⟩
        · exact settled entry member starts
    | some old =>
        simp only [found] at member
        split at member
        next longer =>
          rcases (stream.mem_assign index ndata entry).mp member with rfl | kept
          · refine Nat.not_lt.mp fun reaches => harmless ⟨starts, reaches, ?_⟩
            intro other same
            rw [found] at same
            cases same
            exact longer
          · exact settled entry kept.1 starts
        next => exact settled entry member starts

end Sponge.StreamReassembler
