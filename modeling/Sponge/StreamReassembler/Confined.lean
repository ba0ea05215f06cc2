import Sponge.StreamReassembler.Refinement

namespace Sponge.StreamReassembler

open Fragment

/-! Pushes at any index, before a window whose end may lie beyond the range of
`size_t`. -/

/-- Every stored position lies inside the window. Empty strings may be stored
anywhere. -/
structure Confined (reassembler : StreamReassembler) : Prop where
  word : reassembler.capacity < 2 ^ 64
  valid : reassembler.output.Valid
  room : reassembler.output.bSize = reassembler.capacity
  written : reassembler.writePtr = reassembler.output.writeCount
  front : reassembler.writePtr < 2 ^ 64
  fits : ∀ entry : Fragment Byte, entry ∈ reassembler.stream.entries →
    entry.stop < 2 ^ 64
  inside : ∀ position ∈ spans reassembler.stream.entries,
    position < reassembler.windowEnd
  settled : Settled reassembler.writePtr reassembler.stream.entries
  separated : Separated reassembler.stream.entries
  noted : reassembler.eofF = true → reassembler.writePtr = reassembler.eofIndex →
    reassembler.output.endFlag = true

theorem confined_new {capacity : Nat} (word : capacity < 2 ^ 64) :
    (new capacity).Confined where
  word := word
  valid := ByteStream.valid_new capacity
  room := rfl
  written := rfl
  front := Nat.two_pow_pos 64
  fits := fun _ member => by simp [new] at member
  inside := fun _ member => by simp [new, spans] at member
  settled := fun _ member => by simp [new] at member
  separated := List.Pairwise.nil
  noted := nofun

theorem Carries.confined {source consumed : List Byte} {reassembler : StreamReassembler}
    (carries : Carries source consumed reassembler)
    (windowFits : reassembler.windowEnd < 2 ^ 64) : reassembler.Confined where
  word := Nat.lt_of_le_of_lt (Nat.le_add_left _ _) windowFits
  valid := carries.sound.valid
  room := carries.sound.room
  written := carries.sound.written
  front := by
    have counted := carries.sound.valid.counted
    have bounded := carries.sound.valid.bounded
    have written := carries.sound.written
    have room := carries.sound.room
    unfold windowEnd streamOut ByteStream.bytesRead at windowFits
    omega
  fits := fun entry member =>
    Nat.lt_of_le_of_lt (carries.sound.bounded entry member) windowFits
  inside := by
    intro position covered
    obtain ⟨entry, member, _, high⟩ := mem_spans.mp covered
    exact Nat.lt_of_lt_of_le high (carries.sound.bounded entry member)
  settled := carries.sound.settled
  separated := carries.sound.separated
  noted := fun known reached => carries.ended.mpr ⟨known, reached⟩

/-- A push that brings no position outside the window. -/
def Admissible (reassembler : StreamReassembler) (data : List Byte) (index : Nat) : Prop :=
  index < 2 ^ 64 ∧
    (data = [] ∨ (index ≤ reassembler.windowEnd ∧ index + data.length < 2 ^ 64))

instance (reassembler : StreamReassembler) (data : List Byte) (index : Nat) :
    Decidable (reassembler.Admissible data index) :=
  inferInstanceAs (Decidable (_ ∧ (_ ∨ _)))

theorem windowEnd_push (reassembler : StreamReassembler) (data : List Byte) (index : Nat)
    (eof : Bool) :
    (reassembler.pushSubstring data index eof).windowEnd = reassembler.windowEnd := by
  obtain ⟨extra, ended, extended⟩ := reassembler.push_extends data index eof
  unfold windowEnd streamOut
  rw [push_capacity, extended]
  rfl

section Push

variable {reassembler : StreamReassembler} {data : List Byte} {index : Nat}

theorem Admissible.trimmed_fits (admissible : reassembler.Admissible data index) :
    index + (reassembler.trimmed data index).length < 2 ^ 64 ∧
      (reassembler.trimmed data index = [] ∨
        index + (reassembler.trimmed data index).length ≤ reassembler.windowEnd) := by
  obtain ⟨word, empty | ⟨inside, endFits⟩⟩ := admissible
  · have nothing : reassembler.trimmed data index = [] := by
      apply List.eq_nil_of_length_eq_zero
      have shorter := reassembler.trimmed_length_le data index
      rw [empty, List.length_nil] at shorter
      exact Nat.le_zero.mp (empty ▸ shorter)
    rw [nothing]
    exact ⟨word, Or.inl rfl⟩
  · have shorter := reassembler.trimmed_length_le data index
    refine ⟨by omega, Or.inr ?_⟩
    by_cases windowFits : reassembler.windowEnd < 2 ^ 64
    · rw [trimmed_eq_inWindow ⟨windowFits, inside, endFits⟩, length_inWindow]
      unfold windowEnd streamOut ByteStream.bytesRead at inside ⊢
      omega
    · omega

variable (confined : reassembler.Confined) (admissible : reassembler.Admissible data index)
include confined admissible

theorem Confined.landed_fits :
    ∀ entry : Fragment Byte, entry ∈ (reassembler.landed data index).entries →
      entry.stop < 2 ^ 64 := by
  intro entry member
  rcases mem_store member with rfl | member
  · exact admissible.trimmed_fits.1
  · exact confined.fits entry member

theorem Confined.landed_inside :
    ∀ position ∈ spans (reassembler.landed data index).entries,
      position < reassembler.windowEnd := by
  intro position covered
  rcases (mem_spans_store _ _ _ _).mp covered with old | ⟨_, high⟩
  · exact confined.inside position old
  · rcases admissible.trimmed_fits.2 with empty | bound
    · rw [empty, List.length_nil] at high
      omega
    · omega

omit confined admissible in
theorem stop_le_of_spans {limit : Nat} {entries : List (Fragment Byte)}
    (inside : ∀ position ∈ spans entries, position < limit) :
    ∀ entry ∈ entries, entry.1 < entry.stop → entry.stop ≤ limit := by
  intro entry member nonempty
  have last := inside (entry.stop - 1) (mem_spans.mpr ⟨entry, member, by omega, by omega⟩)
  omega

theorem Confined.writeOut_landed :
    writeOut reassembler.output reassembler.writePtr
        (reassembler.landed data index).entries =
      ({ reassembler.output with
          bts := reassembler.output.bts ++
            (drain reassembler.writePtr (reassembler.landed data index).entries).1
          writeCount := reassembler.writePtr +
            (drain reassembler.writePtr (reassembler.landed data index).entries).1.length },
        reassembler.writePtr +
          (drain reassembler.writePtr (reassembler.landed data index).entries).1.length,
        (drain reassembler.writePtr (reassembler.landed data index).entries).2) := by
  have bounded := stop_le_of_spans (confined.landed_inside admissible)
  have edge : reassembler.windowEnd =
      reassembler.output.readCount + reassembler.output.bSize := by
    rw [confined.room]
    rfl
  rw [edge] at bounded
  rw [confined.written]
  exact writeOut_within confined.valid (confined.room ▸ confined.word)
    (confined.landed_fits admissible) bounded

omit confined admissible in
theorem kept_sorted (reassembler : StreamReassembler) (data : List Byte) (index : Nat) :
    (drain reassembler.writePtr (reassembler.landed data index).entries).2.Pairwise
      (fun left right => left.1 < right.1) :=
  (reassembler.landed data index).sorted.sublist (drain_sublist _ _)

theorem Confined.push_front (eof : Bool) :
    (reassembler.pushSubstring data index eof).writePtr = reassembler.writePtr +
      (drain reassembler.writePtr (reassembler.landed data index).entries).1.length := by
  rw [push_writePtr_eq, confined.writeOut_landed admissible]

theorem Confined.push_stored (eof : Bool) :
    (reassembler.pushSubstring data index eof).stream.entries =
      coalesce (drain reassembler.writePtr (reassembler.landed data index).entries).2 := by
  rw [push_entries_eq, confined.writeOut_landed admissible]
  exact merge_eq fun entry member =>
    confined.landed_fits admissible entry ((drain_sublist _ _).subset member)

theorem Confined.push_spans (eof : Bool) :
    spans (reassembler.pushSubstring data index eof).stream.entries =
      spans (drain reassembler.writePtr (reassembler.landed data index).entries).2 := by
  rw [confined.push_stored admissible]
  exact spans_coalesce (kept_sorted reassembler data index)

theorem Confined.pushSubstring (eof : Bool) :
    (reassembler.pushSubstring data index eof).Confined := by
  have bounded := stop_le_of_spans (confined.landed_inside admissible)
  have counted := confined.valid.counted
  have full := confined.valid.bounded
  have written := confined.written
  have edge : reassembler.windowEnd =
      reassembler.output.readCount + reassembler.output.bSize := by
    rw [confined.room]
    rfl
  have reached := drain_within (show reassembler.writePtr ≤ reassembler.windowEnd by omega)
    bounded
  refine ⟨?_, ⟨?_, ?_⟩, ?_, ?_, ?_, ?_, ?_, ?_, ?_, ?_⟩
  · rw [push_capacity]
    exact confined.word
  · rw [push_output_eq, confined.writeOut_landed admissible]
    simp only [List.length_append]
    omega
  · rw [push_output_eq, confined.writeOut_landed admissible]
    simp only [List.length_append]
    omega
  · rw [push_output_eq, confined.writeOut_landed admissible, push_capacity]
    exact confined.room
  · rw [confined.push_front admissible, push_output_eq, confined.writeOut_landed admissible]
  · have front := confined.front
    have last := drain_within (show reassembler.writePtr ≤ 2 ^ 64 - 1 by omega)
      fun entry member _ => Nat.le_sub_one_of_lt
        (confined.landed_fits admissible entry member)
    rw [confined.push_front admissible]
    omega
  · rw [confined.push_stored admissible]
    intro entry member
    have stop := coalesce_le (fun entry member => Nat.le_sub_one_of_lt
      (confined.landed_fits admissible entry ((drain_sublist _ _).subset member))) entry member
    omega
  · intro position covered
    rw [confined.push_spans admissible] at covered
    rw [windowEnd_push]
    exact confined.landed_inside admissible position
      (spans_subset (drain_sublist _ _) covered)
  · exact push_settled reassembler data index eof
  · rw [confined.push_stored admissible]
    exact separated_coalesce (kept_sorted reassembler data index)
  · exact reassembler.push_noted data index eof

theorem Confined.push_advances (eof : Bool) (starts : index ≤ reassembler.writePtr)
    (reaches : reassembler.writePtr <
      index + (reassembler.trimmed data index).length) :
    reassembler.writePtr < (reassembler.pushSubstring data index eof).writePtr := by
  have after := confined.pushSubstring admissible eof
  have grows := confined.push_front admissible eof
  have covered : reassembler.writePtr ∈ spans (reassembler.landed data index).entries :=
    (mem_spans_store _ _ _ _).mpr (Or.inr ⟨starts, reaches⟩)
  rcases (drain_covers reassembler.writePtr (reassembler.landed data index).entries
    reassembler.writePtr).mpr (Or.inr covered) with written | stored
  · rw [grows]
    exact written
  · rw [← confined.push_spans admissible eof] at stored
    obtain ⟨entry, member, low, high⟩ := mem_spans.mp stored
    by_contra stuck
    have behind := after.settled entry member (by omega)
    rw [entryEnd_eq (after.fits entry member)] at behind
    omega

end Push

theorem Confined.readOut {reassembler : StreamReassembler} (confined : reassembler.Confined)
    (len : Nat) : (reassembler.readOut len).Confined := by
  have valid := confined.valid.read len
  obtain ⟨word, _, room, written, front, fits, inside, settled, separated, noted⟩ := confined
  refine ⟨word, valid, ?_, ?_, front, fits, ?_, settled, separated, ?_⟩
  · simpa [StreamReassembler.readOut, ByteStream.read_eq] using room
  · simpa [StreamReassembler.readOut, ByteStream.read_eq] using written
  · intro position covered
    have bound := inside position covered
    unfold windowEnd streamOut ByteStream.bytesRead at bound ⊢
    simp only [StreamReassembler.readOut, ByteStream.read_eq]
    omega
  · simpa [StreamReassembler.readOut, ByteStream.read_eq] using noted

/-! ## Runs -/

def perform (reassembler : StreamReassembler) : Call → StreamReassembler
  | .pushSubstring data index eof => reassembler.pushSubstring data index eof
  | .read len => reassembler.readOut len

def runs (capacity : Nat) (allowed : StreamReassembler → Call → Prop) :
    Machine StreamReassembler Call where
  init := new capacity
  guard := allowed
  next := perform

def Keeping (reassembler : StreamReassembler) : Call → Prop
  | .pushSubstring data index _ => reassembler.Admissible data index
  | .read _ => True

instance (reassembler : StreamReassembler) (call : Call) :
    Decidable (Keeping reassembler call) :=
  match call with
  | .pushSubstring data index _ =>
      inferInstanceAs (Decidable (reassembler.Admissible data index))
  | .read _ => .isTrue trivial

instance (capacity : Nat) (reassembler : StreamReassembler) (call : Call) :
    Decidable ((runs capacity Keeping).guard reassembler call) :=
  inferInstanceAs (Decidable (Keeping reassembler call))

theorem Confined.perform {reassembler : StreamReassembler} (confined : reassembler.Confined)
    {call : Call} (keeping : Keeping reassembler call) :
    (reassembler.perform call).Confined := by
  cases call with
  | pushSubstring data index eof => exact confined.pushSubstring keeping eof
  | read len => exact confined.readOut len

theorem runs_confined {capacity : Nat} (word : capacity < 2 ^ 64)
    {reassembler : StreamReassembler}
    (reached : (runs capacity Keeping).Reachable reassembler) : reassembler.Confined :=
  Machine.invariant Confined (confined_new word)
    (fun _ _ allowed confined => confined.perform allowed) reached

/-! ## Strings beyond the window -/

/-- A push beyond the window changes nothing that can be seen, and no push stores or
writes a position at or beyond the window's end. -/
structure Discards (reassembler : StreamReassembler) (data : List Byte) (index : Nat)
    (eof : Bool) : Prop where
  bytes : reassembler.windowEnd < index →
    (reassembler.pushSubstring data index eof).streamOut.bts = reassembler.streamOut.bts
  count : reassembler.windowEnd < index →
    (reassembler.pushSubstring data index eof).streamOut.bytesWritten =
      reassembler.streamOut.bytesWritten
  unassembled : reassembler.windowEnd < index →
    (reassembler.pushSubstring data index eof).unassembledBytes =
      reassembler.unassembledBytes
  ended : reassembler.windowEnd < index →
    (reassembler.pushSubstring data index eof).streamOut.inputEnded =
      reassembler.streamOut.inputEnded
  stored : ∀ position ∈ spans (reassembler.pushSubstring data index eof).stream.entries,
    position < reassembler.windowEnd
  written : (reassembler.pushSubstring data index eof).streamOut.bytesWritten ≤
    reassembler.windowEnd

section

variable {reassembler : StreamReassembler} {data : List Byte} {index : Nat}

theorem Confined.unassembledBytes_eq_card (confined : reassembler.Confined) :
    reassembler.unassembledBytes =
      ((spans reassembler.stream.entries).filter
        (fun position => reassembler.writePtr < position)).card := by
  have ahead : (spans reassembler.stream.entries).filter
      (fun position => reassembler.writePtr < position) =
      spans (reassembler.stream.entries.filter
        (fun entry => decide (reassembler.writePtr < entry.1))) := by
    ext position
    simp only [Finset.mem_filter, mem_spans, List.mem_filter, decide_eq_true_eq]
    constructor
    · rintro ⟨⟨entry, member, low, high⟩, beyond⟩
      refine ⟨entry, ⟨member, ?_⟩, low, high⟩
      by_contra starts
      have behind := confined.settled entry member (Nat.not_lt.mp starts)
      rw [entryEnd_eq (confined.fits entry member)] at behind
      omega
    · rintro ⟨entry, ⟨member, starts⟩, low, high⟩
      exact ⟨⟨entry, member, low, high⟩, by omega⟩
  rw [ahead, card_spans (List.Pairwise.filter _ confined.separated), unassembledBytes_eq]

theorem Confined.writeCount_le (confined : reassembler.Confined) :
    reassembler.output.writeCount ≤ reassembler.windowEnd := by
  have counted := confined.valid.counted
  have bounded := confined.valid.bounded
  rw [confined.room] at bounded
  unfold windowEnd streamOut ByteStream.bytesRead
  omega

theorem Confined.writeOut_behind (confined : reassembler.Confined)
    (behind : index ≤ reassembler.writePtr →
      index + (reassembler.trimmed data index).length ≤ reassembler.writePtr) :
    writeOut reassembler.output reassembler.writePtr
        (reassembler.landed data index).entries =
      (reassembler.output, reassembler.writePtr,
        (reassembler.landed data index).entries) := by
  apply writeOut_of_settled
  apply (store_settled_iff confined.settled _ _).mpr
  rintro ⟨starts, reaches, _⟩
  have stop : entryEnd (index, reassembler.trimmed data index) ≤ _ := SizeT.add_le _ _
  exact Nat.not_le.mpr reaches (Nat.le_trans stop (behind starts))

theorem Confined.push_cut (confined : reassembler.Confined)
    (behind : index ≤ reassembler.writePtr →
      index + (reassembler.trimmed data index).length ≤ reassembler.writePtr)
    (cut : SizeT.add reassembler.output.bytesRead reassembler.capacity <
      SizeT.add index data.length) (eof : Bool) :
    (reassembler.pushSubstring data index eof).output = reassembler.output := by
  have flag : (reassembler.pushSubstring data index eof).eofF = reassembler.eofF := by
    change (reassembler.takeIn data index eof).eofF = _
    unfold takeIn
    dsimp only
    rw [if_pos cut]
  have place : (reassembler.pushSubstring data index eof).eofIndex =
      reassembler.eofIndex := by
    change (reassembler.takeIn data index eof).eofIndex = _
    unfold takeIn
    dsimp only
    rw [if_pos cut]
  have stays : (reassembler.output.endFlag ||
      (decide (reassembler.writePtr = reassembler.eofIndex) && reassembler.eofF)) =
      reassembler.output.endFlag := by
    rw [Bool.or_eq_left_iff_imp]
    simp only [Bool.and_eq_true, decide_eq_true_eq]
    rintro ⟨reached, known⟩
    exact confined.noted known reached
  rw [push_output_eq, flag, place, push_writePtr_eq, confined.writeOut_behind behind]
  dsimp only
  rw [stays]

theorem Confined.push_next (confined : reassembler.Confined)
    (pushable : reassembler.Pushable data index) {eof : Bool}
    (room : reassembler.writePtr < reassembler.windowEnd)
    (starts : index ≤ reassembler.writePtr)
    (reaches : reassembler.writePtr < index + data.length + (if eof then 1 else 0)) :
    reassembler.writePtr < (reassembler.pushSubstring data index eof).writePtr ∨
      (reassembler.pushSubstring data index eof).output.endFlag = true := by
  have endFits := pushable.endFits
  have length := congrArg List.length (trimmed_eq_inWindow pushable)
  rw [length_inWindow] at length
  unfold windowEnd streamOut ByteStream.bytesRead at room
  by_cases byte : reassembler.writePtr < index + data.length
  · exact Or.inl (confined.push_advances ⟨by omega, Or.inr ⟨pushable.inside, endFits⟩⟩ eof
      starts (by omega))
  · obtain rfl : eof = true := by
      by_contra unclosed
      rw [if_neg unclosed] at reaches
      omega
    have whole : reassembler.ends data index true = true := by
      simp only [ends, Bool.true_and, decide_eq_true_eq]
      omega
    rw [if_pos rfl] at reaches
    refine Or.inr (reassembler.push_noted data index true ?_ ?_)
    · rw [push_eofF pushable, whole, Bool.or_true]
    · rw [push_eofIndex pushable, whole, if_pos rfl, push_writePtr_eq,
        confined.writeOut_behind fun _ => by omega]
      dsimp only
      omega

theorem Confined.front_le (confined : reassembler.Confined) :
    reassembler.writePtr ≤ reassembler.windowEnd := by
  rw [confined.written]
  exact confined.writeCount_le

theorem trimmed_nil (reassembler : StreamReassembler) (index : Nat) :
    reassembler.trimmed [] index = [] :=
  List.eq_nil_of_length_eq_zero (Nat.le_zero.mp (reassembler.trimmed_length_le [] index))

/-- The difference of window end and index wraps: something is always kept. -/
theorem trimmed_ne_nil (beyond : reassembler.windowEnd < index) (word : index < 2 ^ 64)
    (nonempty : data ≠ []) : reassembler.trimmed data index ≠ [] := by
  have sum : SizeT.add reassembler.output.bytesRead reassembler.capacity =
      reassembler.windowEnd := SizeT.add_of_lt (Nat.lt_trans beyond word)
  unfold trimmed
  rw [sum]
  split
  · have positive : 0 < SizeT.sub reassembler.windowEnd index := by
      unfold SizeT.sub
      omega
    rw [Ne, List.take_eq_nil_iff, not_or]
    exact ⟨Nat.ne_of_gt positive, nonempty⟩
  · exact nonempty

theorem Confined.push_within (confined : reassembler.Confined)
    (admissible : reassembler.Admissible data index) (eof : Bool) :
    (∀ position ∈ spans (reassembler.pushSubstring data index eof).stream.entries,
      position < reassembler.windowEnd) ∧
    (reassembler.pushSubstring data index eof).streamOut.bytesWritten ≤
      reassembler.windowEnd := by
  have after := confined.pushSubstring admissible eof
  rw [← windowEnd_push reassembler data index eof]
  exact ⟨after.inside, after.writeCount_le⟩

theorem Confined.discards_empty (confined : reassembler.Confined) (word : index < 2 ^ 64)
    (eof : Bool) (beyond : reassembler.windowEnd < index) :
    Discards reassembler [] index eof := by
  have admissible : reassembler.Admissible [] index := ⟨word, Or.inl rfl⟩
  have after := confined.pushSubstring admissible eof
  have front := confined.front_le
  have behind : index ≤ reassembler.writePtr →
      index + (reassembler.trimmed [] index).length ≤ reassembler.writePtr := by
    intro starts
    omega
  have cut : SizeT.add reassembler.output.bytesRead reassembler.capacity <
      SizeT.add index ([] : List Byte).length := by
    have sum : SizeT.add reassembler.output.bytesRead reassembler.capacity =
      reassembler.windowEnd := SizeT.add_of_lt (Nat.lt_trans beyond word)
    rw [sum, List.length_nil, SizeT.add_of_lt word]
    exact beyond
  have same : (reassembler.pushSubstring [] index eof).streamOut = reassembler.streamOut :=
    confined.push_cut behind cut eof
  obtain ⟨stored, written⟩ := confined.push_within admissible eof
  refine ⟨fun _ => by rw [same], fun _ => by rw [same], fun _ => ?_, fun _ => by rw [same],
    stored, written⟩
  · have covered : spans (reassembler.pushSubstring [] index eof).stream.entries =
        spans reassembler.stream.entries := by
      rw [push_entries_eq, confined.writeOut_behind behind,
        merge_eq (confined.landed_fits admissible),
        spans_coalesce (reassembler.landed [] index).sorted]
      ext position
      rw [landed, mem_spans_store, trimmed_nil, List.length_nil]
      constructor
      · rintro (old | ⟨low, high⟩)
        · exact old
        · omega
      · exact Or.inl
    rw [after.unassembledBytes_eq_card, confined.unassembledBytes_eq_card, covered,
      push_writePtr_eq, confined.writeOut_behind behind]

theorem Confined.discards_inside (confined : reassembler.Confined)
    (admissible : reassembler.Admissible data index) (eof : Bool)
    (inside : index ≤ reassembler.windowEnd) : Discards reassembler data index eof := by
  have outside : ¬ reassembler.windowEnd < index := Nat.not_lt.mpr inside
  obtain ⟨stored, written⟩ := confined.push_within admissible eof
  exact ⟨fun beyond => absurd beyond outside, fun beyond => absurd beyond outside,
    fun beyond => absurd beyond outside, fun beyond => absurd beyond outside, stored, written⟩

theorem Confined.stores_beyond (confined : reassembler.Confined)
    (beyond : reassembler.windowEnd < index) (word : index < 2 ^ 64)
    (nonempty : data ≠ []) (eof : Bool) :
    index ∈ spans (reassembler.pushSubstring data index eof).stream.entries := by
  have kept := trimmed_ne_nil beyond word nonempty
  have landing : (index, reassembler.trimmed data index) ∈
      (reassembler.landed data index).entries := by
    apply mem_store_self
    intro old found
    have member := (reassembler.stream.find?_eq_some_iff index old).mp found
    by_contra longer
    have positive := List.length_pos_iff.mpr kept
    have bound := confined.inside index
      (mem_spans.mpr ⟨(index, old), member, Nat.le_refl _, by rw [stop_mk]; omega⟩)
    omega
  have apart : ∀ other ∈ (reassembler.landed data index).entries, other.1 < index →
      entryEnd other ≤ index := by
    intro other member behind
    rcases mem_store member with rfl | member
    · exact absurd behind (Nat.lt_irrefl _)
    · have bound := stop_le_of_spans confined.inside other member
      rw [entryEnd_eq (confined.fits other member)]
      omega
  obtain ⟨extra, member⟩ := merge_keeps (reassembler.landed data index).sorted apart landing
  have front := confined.front_le
  rw [push_entries_eq, confined.writeOut_behind fun starts => by omega]
  refine mem_spans.mpr ⟨_, member, Nat.le_refl _, ?_⟩
  have positive := List.length_pos_iff.mpr kept
  rw [stop_mk, List.length_append]
  dsimp only
  omega

end

/-- In a run whose pushes all keep to the window every push is discarded as it should
be; a push with bytes beyond the window never is. -/
theorem push_discards {capacity : Nat} (word : capacity < 2 ^ 64)
    {reassembler : StreamReassembler}
    (reached : (runs capacity Keeping).Reachable reassembler) (data : List Byte)
    {index : Nat} (address : index < 2 ^ 64) (eof : Bool) :
    (Keeping reassembler (.pushSubstring data index eof) →
        Discards reassembler data index eof) ∧
      (Discards reassembler data index eof →
        index ≤ reassembler.windowEnd ∨ data = []) := by
  have confined := runs_confined word reached
  constructor
  · intro keeping
    by_cases inside : index ≤ reassembler.windowEnd
    · exact confined.discards_inside keeping eof inside
    · obtain rfl := keeping.2.resolve_right (fun kept => inside kept.1)
      exact confined.discards_empty address eof (Nat.not_le.mp inside)
  · intro discards
    by_contra neither
    obtain ⟨beyond, nonempty⟩ := not_or.mp neither
    have covered := confined.stores_beyond (Nat.not_le.mp beyond) address nonempty eof
    have bound := discards.stored index covered
    omega

theorem push_discards_cut :
    Discards ((runs 3 Keeping).run (new 3) [.pushSubstring [98] 1 false]) [97, 98, 99, 100] 0
      true :=
  (push_discards (by decide) (Machine.reachable_run _ _ (by decide)) _ (by decide) true).1
    (by decide)

/-- With a window of two, a byte pushed at index three is stored and counted. -/
theorem push_stores_beyond_window :
    ∃ reassembler, (runs 2 Keeping).Reachable reassembler ∧
      reassembler.windowEnd = 2 ∧ reassembler.unassembledBytes = 0 ∧
      (reassembler.pushSubstring [100] 3 false).unassembledBytes = 1 ∧
      ¬ Discards reassembler [100] 3 false := by
  refine ⟨_, Machine.reachable_init, by decide, by decide, by decide, ?_⟩
  intro discards
  have same := discards.unassembled (by decide)
  revert same
  decide

end Sponge.StreamReassembler
