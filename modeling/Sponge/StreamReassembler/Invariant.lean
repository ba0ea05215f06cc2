import Sponge.StreamReassembler.Loops

namespace Sponge.StreamReassembler

open Fragment

/-- The state between calls, apart from the bytes: the write pointer counts what
the output accepted, stored strings end inside the window, do not reach over the
write pointer and do not overlap. -/
structure Sound (reassembler : StreamReassembler) : Prop where
  valid : reassembler.output.Valid
  room : reassembler.output.bSize = reassembler.capacity
  written : reassembler.writePtr = reassembler.output.writeCount
  bounded : ∀ entry : Fragment Byte, entry ∈ reassembler.stream.entries →
    entry.stop ≤ reassembler.output.readCount + reassembler.capacity
  settled : Settled reassembler.writePtr reassembler.stream.entries
  separated : Separated reassembler.stream.entries

theorem sound_new (capacity : Nat) : (new capacity).Sound where
  valid := ByteStream.valid_new capacity
  room := rfl
  written := rfl
  bounded := fun _ member => by simp [new] at member
  settled := fun _ member => by simp [new] at member
  separated := List.Pairwise.nil

/-- A push whose numbers stay inside `size_t` and that starts no later than the
window ends. -/
structure Pushable (reassembler : StreamReassembler) (data : List Byte)
    (index : Nat) : Prop where
  windowFits : reassembler.output.readCount + reassembler.capacity < 2 ^ 64
  inside : index ≤ reassembler.output.readCount + reassembler.capacity
  endFits : index + data.length < 2 ^ 64

/-- The part of a push that lies inside the window. -/
def inWindow (reassembler : StreamReassembler) (data : List Byte) (index : Nat) :
    List Byte :=
  data.take (reassembler.output.readCount + reassembler.capacity - index)

def landing (reassembler : StreamReassembler) (data : List Byte) (index : Nat) :
    OrderedMap (List Byte) :=
  store reassembler.stream index (reassembler.inWindow data index)

def added (reassembler : StreamReassembler) (data : List Byte) (index : Nat) :
    List Byte :=
  (drain reassembler.writePtr (reassembler.landing data index).entries).1

def ends (reassembler : StreamReassembler) (data : List Byte) (index : Nat)
    (eof : Bool) : Bool :=
  eof && decide (index + data.length ≤
    reassembler.output.readCount + reassembler.capacity)

theorem length_inWindow (reassembler : StreamReassembler) (data : List Byte)
    (index : Nat) :
    (reassembler.inWindow data index).length =
      min (reassembler.output.readCount + reassembler.capacity - index)
        data.length :=
  List.length_take

theorem assemble_output (reassembler : StreamReassembler) :
    reassembler.assemble.output =
      { (writeOut reassembler.output reassembler.writePtr
          reassembler.stream.entries).1 with
        endFlag := (writeOut reassembler.output reassembler.writePtr
            reassembler.stream.entries).1.endFlag ||
          (decide ((writeOut reassembler.output reassembler.writePtr
              reassembler.stream.entries).2.1 = reassembler.eofIndex) &&
            reassembler.eofF) } := by
  unfold assemble
  dsimp only
  split
  next ended => simp [ByteStream.endInput, ended.1, ended.2]
  next running =>
    have stays : (decide ((writeOut reassembler.output reassembler.writePtr
        reassembler.stream.entries).2.1 = reassembler.eofIndex) &&
        reassembler.eofF) = false := by
      simpa only [Bool.and_eq_false_iff, decide_eq_false_iff_not, not_and_or,
        Bool.not_eq_true] using running
    rw [stays, Bool.or_false]

/-! Facts about a push that hold of the wrapping arithmetic as it is. -/

/-- The string that a push stores, as the code cuts it. -/
def trimmed (reassembler : StreamReassembler) (data : List Byte) (index : Nat) :
    List Byte :=
  if SizeT.add reassembler.output.bytesRead reassembler.capacity <
      SizeT.add index data.length then
    data.take
      (SizeT.sub (SizeT.add reassembler.output.bytesRead reassembler.capacity) index)
  else data

theorem takeIn_stream (reassembler : StreamReassembler) (data : List Byte) (index : Nat)
    (eof : Bool) :
    (reassembler.takeIn data index eof).stream =
      store reassembler.stream index (reassembler.trimmed data index) := by
  unfold takeIn trimmed
  dsimp only
  split
  · rfl
  · split <;> rfl

theorem takeIn_output (reassembler : StreamReassembler) (data : List Byte) (index : Nat)
    (eof : Bool) : (reassembler.takeIn data index eof).output = reassembler.output := by
  unfold takeIn
  dsimp only
  split
  · rfl
  · split <;> rfl

theorem takeIn_writePtr (reassembler : StreamReassembler) (data : List Byte) (index : Nat)
    (eof : Bool) : (reassembler.takeIn data index eof).writePtr = reassembler.writePtr := by
  unfold takeIn
  dsimp only
  split
  · rfl
  · split <;> rfl

def landed (reassembler : StreamReassembler) (data : List Byte) (index : Nat) :
    OrderedMap (List Byte) :=
  store reassembler.stream index (reassembler.trimmed data index)

section

variable (reassembler : StreamReassembler) (data : List Byte) (index : Nat) (eof : Bool)

theorem trimmed_length_le :
    (reassembler.trimmed data index).length ≤ data.length := by
  unfold trimmed
  split
  · exact List.length_take_le' _ _
  · exact Nat.le_refl _

/-! What a push leaves, in terms of the first loop. -/

theorem push_writePtr_eq :
    (reassembler.pushSubstring data index eof).writePtr =
      (writeOut reassembler.output reassembler.writePtr
        (reassembler.landed data index).entries).2.1 := by
  simp only [pushSubstring, assemble, takeIn_output, takeIn_writePtr, takeIn_stream, landed]

theorem push_entries_eq :
    (reassembler.pushSubstring data index eof).stream.entries =
      merge (writeOut reassembler.output reassembler.writePtr
        (reassembler.landed data index).entries).2.2 := by
  simp only [pushSubstring, assemble, takeIn_output, takeIn_writePtr, takeIn_stream, landed,
    OrderedMap.entries_ofKeySublist]

theorem push_output_eq :
    (reassembler.pushSubstring data index eof).output =
      { (writeOut reassembler.output reassembler.writePtr
          (reassembler.landed data index).entries).1 with
        endFlag := (writeOut reassembler.output reassembler.writePtr
            (reassembler.landed data index).entries).1.endFlag ||
          (decide ((reassembler.pushSubstring data index eof).writePtr =
              (reassembler.pushSubstring data index eof).eofIndex) &&
            (reassembler.pushSubstring data index eof).eofF) } := by
  rw [push_writePtr_eq, pushSubstring, assemble_output, takeIn_output, takeIn_writePtr,
    takeIn_stream]
  rfl

theorem push_noted (known : (reassembler.pushSubstring data index eof).eofF = true)
    (reached : (reassembler.pushSubstring data index eof).writePtr =
      (reassembler.pushSubstring data index eof).eofIndex) :
    (reassembler.pushSubstring data index eof).output.endFlag = true := by
  rw [push_output_eq]
  simp [known, reached]

theorem push_extends :
    ∃ extra ended, (reassembler.pushSubstring data index eof).output =
      { reassembler.output with
        bts := reassembler.output.bts ++ extra
        writeCount := reassembler.output.writeCount + extra.length
        endFlag := reassembler.output.endFlag || ended } := by
  obtain ⟨extra, extended⟩ := writeOut_extends reassembler.output reassembler.writePtr
    (reassembler.landed data index).entries
  rw [push_output_eq, extended]
  exact ⟨extra, _, rfl⟩

theorem push_settled :
    Settled (reassembler.pushSubstring data index eof).writePtr
      (reassembler.pushSubstring data index eof).stream.entries := by
  rw [push_writePtr_eq, push_entries_eq]
  exact merge_settled (writeOut_settled _ _ (reassembler.landed data index).sorted)

end

theorem push_closing {reassembler : StreamReassembler} {data : List Byte} {index : Nat}
    {eof : Bool}
    (closed : (reassembler.pushSubstring data index eof).eofF = true ∨
      (reassembler.pushSubstring data index eof).output.endFlag = true) :
    reassembler.eofF = true ∨ reassembler.output.endFlag = true ∨ eof = true := by
  have known : (reassembler.takeIn data index eof).eofF = true →
      reassembler.eofF = true ∨ eof = true := by
    unfold takeIn
    dsimp only
    split
    · exact Or.inl
    · split
      next isEnd => exact fun _ => Or.inr isEnd
      next => exact Or.inl
  obtain ⟨extra, extended⟩ := writeOut_extends reassembler.output reassembler.writePtr
    (reassembler.landed data index).entries
  rcases closed with flag | ended
  · have := known flag
    tauto
  · rw [push_output_eq, extended] at ended
    simp only [Bool.or_eq_true, Bool.and_eq_true] at ended
    rcases ended with already | ⟨_, flag⟩
    · exact Or.inr (Or.inl already)
    · have := known flag
      tauto

/-- The string reaches over the write pointer and is not kept out by a longer one
at the same index. -/
def Overruns (reassembler : StreamReassembler) (data : List Byte) (index : Nat) : Prop :=
  index ≤ reassembler.writePtr ∧
    reassembler.writePtr < entryEnd (index, reassembler.trimmed data index) ∧
    ∀ old, reassembler.stream.find? index = some old →
      old.length < (reassembler.trimmed data index).length

/-- As long as the output has room, a push writes something exactly if its string
overruns the write pointer. -/
theorem push_bts_eq_iff {reassembler : StreamReassembler}
    (settled : Settled reassembler.writePtr reassembler.stream.entries)
    (room : 0 < reassembler.output.remainingCapacity) (data : List Byte) (index : Nat)
    (eof : Bool) :
    (reassembler.pushSubstring data index eof).output.bts = reassembler.output.bts ↔
      ¬reassembler.Overruns data index := by
  rw [Overruns, ← store_settled_iff settled, push_output_eq]
  constructor
  · intro same
    by_contra unsettled
    unfold Settled at unsettled
    push Not at unsettled
    obtain ⟨entry, member, starts, reaches⟩ := unsettled
    have grows := writeOut_grows (reassembler.landed data index).sorted room
      ⟨entry, member, starts, reaches⟩
    rw [show (writeOut _ _ _).1.bts = reassembler.output.bts from same] at grows
    exact Nat.lt_irrefl _ grows
  · intro after
    rw [landed, writeOut_of_settled _ after]

theorem push_capacity (reassembler : StreamReassembler) (data : List Byte)
    (index : Nat) (eof : Bool) :
    (reassembler.pushSubstring data index eof).capacity = reassembler.capacity := by
  unfold pushSubstring assemble takeIn
  dsimp only
  split
  · rfl
  · split <;> rfl

section Push

variable {reassembler : StreamReassembler} {data : List Byte} {index : Nat}

theorem takeIn_eq (pushable : reassembler.Pushable data index) (eof : Bool) :
    reassembler.takeIn data index eof =
      { reassembler with
        readPtr := reassembler.output.readCount
        eofIndex := if reassembler.ends data index eof then index + data.length
          else reassembler.eofIndex
        eofF := reassembler.eofF || reassembler.ends data index eof
        stream := reassembler.landing data index } := by
  obtain ⟨windowFits, inside, endFits⟩ := pushable
  unfold takeIn ByteStream.bytesRead
  simp only [SizeT.add_of_lt windowFits, SizeT.add_of_lt endFits,
    SizeT.sub_of_le inside windowFits]
  split
  next cut =>
    have notEnds : reassembler.ends data index eof = false := by
      simp only [ends, Bool.and_eq_false_iff, decide_eq_false_iff_not]
      omega
    simp [landing, inWindow, notEnds]
  next whole =>
    have all : reassembler.inWindow data index = data :=
      List.take_of_length_le (by omega)
    cases eof with
    | false => simp [landing, all, ends]
    | true =>
        have isEnd : reassembler.ends data index true = true := by
          simpa [ends] using whole
        simp [landing, all, isEnd]

theorem trimmed_eq_inWindow (pushable : reassembler.Pushable data index) :
    reassembler.trimmed data index = reassembler.inWindow data index := by
  obtain ⟨windowFits, inside, endFits⟩ := pushable
  unfold trimmed inWindow ByteStream.bytesRead
  rw [SizeT.add_of_lt windowFits, SizeT.add_of_lt endFits, SizeT.sub_of_le inside windowFits]
  split
  next => rfl
  next whole => exact (List.take_of_length_le (by omega)).symm

theorem landed_eq_landing (pushable : reassembler.Pushable data index) :
    reassembler.landed data index = reassembler.landing data index := by
  rw [landed, trimmed_eq_inWindow pushable, landing]

variable (sound : reassembler.Sound)
include sound

theorem Sound.landing_bounded (pushable : reassembler.Pushable data index) :
    ∀ entry : Fragment Byte, entry ∈ (reassembler.landing data index).entries →
      entry.stop ≤ reassembler.output.readCount + reassembler.capacity := by
  intro entry member
  rcases mem_store member with rfl | member
  · have inside := pushable.inside
    rw [stop_mk, length_inWindow]
    omega
  · exact sound.bounded entry member

theorem Sound.writeOut_landing (pushable : reassembler.Pushable data index) :
    writeOut reassembler.output reassembler.writePtr
        (reassembler.landing data index).entries =
      ({ reassembler.output with
          bts := reassembler.output.bts ++ reassembler.added data index
          writeCount := reassembler.output.writeCount +
            (reassembler.added data index).length },
        reassembler.writePtr + (reassembler.added data index).length,
        (drain reassembler.writePtr
          (reassembler.landing data index).entries).2) := by
  have loop := writeOut_eq (reassembler.output.readCount + reassembler.capacity)
    sound.valid (by rw [sound.room]) pushable.windowFits (sound.landing_bounded pushable)
  rw [← sound.written] at loop
  rw [loop, ← sound.written]
  rfl

theorem Sound.drained_fits (pushable : reassembler.Pushable data index) :
    ∀ entry ∈ (drain reassembler.writePtr
        (reassembler.landing data index).entries).2,
      entry.stop < 2 ^ 64 := by
  intro entry member
  have kept := (drain_sublist _ _).subset member
  exact Nat.lt_of_le_of_lt (sound.landing_bounded pushable entry kept)
    pushable.windowFits

/-! One equation for each part of the state after a push. -/

variable (pushable : reassembler.Pushable data index) (eof : Bool)
include pushable

theorem Sound.push_writePtr :
    (reassembler.pushSubstring data index eof).writePtr =
      reassembler.writePtr + (reassembler.added data index).length := by
  rw [push_writePtr_eq, landed_eq_landing pushable, sound.writeOut_landing pushable]

theorem Sound.push_entries :
    (reassembler.pushSubstring data index eof).stream.entries =
      coalesce (drain reassembler.writePtr
        (reassembler.landing data index).entries).2 := by
  rw [push_entries_eq, landed_eq_landing pushable, sound.writeOut_landing pushable]
  exact merge_eq (sound.drained_fits pushable)

omit sound in
theorem push_eofF :
    (reassembler.pushSubstring data index eof).eofF =
      (reassembler.eofF || reassembler.ends data index eof) := by
  simp only [pushSubstring, assemble, takeIn_eq pushable]

omit sound in
theorem push_eofIndex :
    (reassembler.pushSubstring data index eof).eofIndex =
      if reassembler.ends data index eof then index + data.length
      else reassembler.eofIndex := by
  simp only [pushSubstring, assemble, takeIn_eq pushable]

theorem Sound.push_output :
    (reassembler.pushSubstring data index eof).output =
      { reassembler.output with
        bts := reassembler.output.bts ++ reassembler.added data index
        writeCount := reassembler.output.writeCount +
          (reassembler.added data index).length
        endFlag := reassembler.output.endFlag ||
          (decide ((reassembler.pushSubstring data index eof).writePtr =
              (reassembler.pushSubstring data index eof).eofIndex) &&
            (reassembler.pushSubstring data index eof).eofF) } := by
  rw [push_output_eq, landed_eq_landing pushable, sound.writeOut_landing pushable]

theorem Sound.push_endFlag :
    (reassembler.pushSubstring data index eof).output.endFlag = true ↔
      reassembler.output.endFlag = true ∨
        ((reassembler.pushSubstring data index eof).eofF = true ∧
          (reassembler.pushSubstring data index eof).writePtr =
            (reassembler.pushSubstring data index eof).eofIndex) := by
  rw [sound.push_output pushable]
  simp only [Bool.or_eq_true, Bool.and_eq_true, decide_eq_true_eq]
  tauto

theorem Sound.pushSubstring : (reassembler.pushSubstring data index eof).Sound := by
  have bounded := sound.landing_bounded pushable
  have frontBound : reassembler.writePtr ≤
      reassembler.output.readCount + reassembler.capacity := by
    have := sound.valid.bounded
    have := sound.valid.counted
    rw [sound.written, ← sound.room]
    omega
  have reached := drain_le frontBound bounded
  have sorted := (reassembler.landing data index).sorted.sublist
    (drain_sublist reassembler.writePtr (reassembler.landing data index).entries)
  refine ⟨⟨?_, ?_⟩, ?_, ?_, ?_, ?_, ?_⟩
  · have counted := sound.valid.counted
    have written := sound.written
    have room := sound.room
    rw [sound.push_output pushable, List.length_append]
    change reassembler.output.bts.length + (drain _ _).1.length ≤ _
    dsimp only
    omega
  · have counted := sound.valid.counted
    rw [sound.push_output pushable, List.length_append]
    dsimp only
    omega
  · rw [sound.push_output pushable, push_capacity]
    exact sound.room
  · rw [sound.push_writePtr pushable, sound.push_output pushable, sound.written]
  · rw [sound.push_output pushable, sound.push_entries pushable, push_capacity]
    exact coalesce_le fun entry member =>
      bounded entry ((drain_sublist _ _).subset member)
  · exact push_settled reassembler data index eof
  · rw [sound.push_entries pushable]
    exact separated_coalesce sorted

theorem Sound.added_eq_nil
    (behind : data = [] ∨ index + data.length ≤ reassembler.writePtr) :
    reassembler.added data index = [] := by
  have settled : Settled reassembler.writePtr
      (reassembler.landing data index).entries := by
    intro entry member starts
    rcases mem_store member with rfl | member
    · refine Nat.le_trans (SizeT.add_le _ _) ?_
      rw [length_inWindow]
      rcases behind with rfl | behind
      · simpa using starts
      · dsimp only
        omega
    · exact sound.settled entry member starts
  have loop := sound.writeOut_landing pushable
  rw [writeOut_of_settled _ settled, Prod.mk.injEq, Prod.mk.injEq] at loop
  exact List.eq_nil_of_length_eq_zero (by omega)

/-- The positions written or stored after a push are those before it and those
of the push inside the window. -/
theorem Sound.push_covers (position : Nat) :
    (position < (reassembler.pushSubstring data index eof).writePtr ∨
        position ∈ spans (reassembler.pushSubstring data index eof).stream.entries) ↔
      (position < reassembler.writePtr ∨
        position ∈ spans reassembler.stream.entries) ∨
          (index ≤ position ∧
            position < index + (reassembler.inWindow data index).length) := by
  have sorted := (reassembler.landing data index).sorted.sublist
    (drain_sublist reassembler.writePtr (reassembler.landing data index).entries)
  rw [sound.push_writePtr pushable, sound.push_entries pushable, spans_coalesce sorted]
  have drained := drain_covers reassembler.writePtr
    (reassembler.landing data index).entries position
  rw [show reassembler.added data index =
    (drain reassembler.writePtr (reassembler.landing data index).entries).1 from rfl,
    drained, landing, mem_spans_store]
  tauto

end Push

theorem Sound.readOut {reassembler : StreamReassembler} (sound : reassembler.Sound)
    (len : Nat) : (reassembler.readOut len).Sound where
  valid := sound.valid.read len
  room := by
    have room := sound.room
    simpa [StreamReassembler.readOut, ByteStream.read_eq] using room
  written := by
    have written := sound.written
    simpa [StreamReassembler.readOut, ByteStream.read_eq] using written
  bounded := by
    intro entry member
    have bound := sound.bounded entry member
    simp only [StreamReassembler.readOut, ByteStream.read_eq]
    omega
  settled := sound.settled
  separated := sound.separated

theorem Sound.front_not_covered {reassembler : StreamReassembler}
    (sound : reassembler.Sound)
    (fits : reassembler.output.readCount + reassembler.capacity < 2 ^ 64) :
    reassembler.writePtr ∉ spans reassembler.stream.entries := by
  intro covered
  obtain ⟨entry, member, starts, ends⟩ := mem_spans.mp covered
  have bound := sound.bounded entry member
  have behind := sound.settled entry member starts
  rw [entryEnd_eq (by omega)] at behind
  omega

theorem Sound.push_advances {reassembler : StreamReassembler} (sound : reassembler.Sound)
    {data : List Byte} {index : Nat} (pushable : reassembler.Pushable data index)
    (eof : Bool) (starts : index ≤ reassembler.writePtr)
    (reaches : reassembler.writePtr <
      index + (reassembler.inWindow data index).length) :
    reassembler.writePtr < (reassembler.pushSubstring data index eof).writePtr := by
  have after := sound.pushSubstring pushable eof
  have fits : (reassembler.pushSubstring data index eof).output.readCount +
      (reassembler.pushSubstring data index eof).capacity < 2 ^ 64 := by
    rw [sound.push_output pushable, push_capacity]
    exact pushable.windowFits
  have grows := sound.push_writePtr pushable eof
  rcases (sound.push_covers pushable eof reassembler.writePtr).mpr
    (Or.inr ⟨starts, reaches⟩) with written | stored
  · exact written
  · by_contra stuck
    have same : (reassembler.pushSubstring data index eof).writePtr =
        reassembler.writePtr := by omega
    rw [← same] at stored
    exact after.front_not_covered fits stored

theorem Sound.push_reaches {reassembler : StreamReassembler} (sound : reassembler.Sound)
    {data : List Byte} {index : Nat} (pushable : reassembler.Pushable data index)
    (eof : Bool) (starts : index ≤ reassembler.writePtr) :
    index + (reassembler.inWindow data index).length ≤
      (reassembler.pushSubstring data index eof).writePtr := by
  have fits : (reassembler.pushSubstring data index eof).output.readCount +
      (reassembler.pushSubstring data index eof).capacity < 2 ^ 64 := by
    rw [sound.push_output pushable, push_capacity]
    exact pushable.windowFits
  have grows := sound.push_writePtr pushable eof
  by_contra short
  rcases (sound.push_covers pushable eof _).mpr
    (Or.inr ⟨by omega, Nat.not_le.mp short⟩) with written | stored
  · exact Nat.lt_irrefl _ written
  · exact (sound.pushSubstring pushable eof).front_not_covered fits stored

end Sponge.StreamReassembler
