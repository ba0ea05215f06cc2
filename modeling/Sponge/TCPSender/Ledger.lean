import Sponge.Data.Tiling
import Sponge.TCPSender

namespace Sponge.TCPSender

open Tiling (extent place)

/-! What the segments created so far say about the sender. -/

/-- The created segments with the absolute number each one starts at. -/
def tiles (segs : List TCPSegment) : List (Nat × TCPSegment) :=
  place TCPSegment.lengthInSequenceSpace 0 segs

def payloads (segs : List TCPSegment) : List Byte :=
  segs.flatMap (fun seg => seg.payload.str)

theorem tiles_append_singleton (segs : List TCPSegment) (seg : TCPSegment) :
    tiles (segs ++ [seg]) =
      tiles segs ++ [(extent TCPSegment.lengthInSequenceSpace segs, seg)] := by
  simp [tiles, Tiling.place_append, place]

theorem exists_tile {segs : List TCPSegment} {seg : TCPSegment} (member : seg ∈ segs) :
    ∃ start, (start, seg) ∈ tiles segs := by
  rw [← Tiling.map_snd_place TCPSegment.lengthInSequenceSpace 0 segs] at member
  obtain ⟨⟨start, _⟩, placed, rfl⟩ := List.mem_map.mp member
  exact ⟨start, placed⟩

theorem mem_of_tile {segs : List TCPSegment} {tile : Nat × TCPSegment}
    (placed : tile ∈ tiles segs) : tile.2 ∈ segs := by
  rw [← Tiling.map_snd_place TCPSegment.lengthInSequenceSpace 0 segs]
  exact List.mem_map_of_mem placed

theorem payloads_append_singleton (segs : List TCPSegment) (seg : TCPSegment) :
    payloads (segs ++ [seg]) = payloads segs ++ seg.payload.str := by
  simp [payloads]

/-- The accounting of `fill_window`: the created segments tile the sequence numbers
below `_next_seqno`, their payloads are what was read from the stream, SYN is at
number zero and FIN, once sent, at the end. -/
structure Ledger (sender : TCPSender) (accepted : List Byte)
    (created : List TCPSegment) : Prop where
  valid : sender.stream.Valid
  total : extent TCPSegment.lengthInSequenceSpace created = sender.nextSeqno
  seqno : ∀ tile ∈ tiles created, tile.2.header.seqno = wrap tile.1 sender.isn
  syn : ∀ tile ∈ tiles created, tile.2.header.syn = decide (tile.1 = 0)
  fin : ∀ tile ∈ tiles created, tile.2.header.fin = true ↔
    sender.finSend = true ∧ tile.1 + tile.2.lengthInSequenceSpace = sender.nextSeqno
  nonempty : ∀ seg ∈ created, 0 < seg.lengthInSequenceSpace
  small : ∀ seg ∈ created, seg.payload.str.length ≤ TCPConfig.maxPayloadSize
  bytes : payloads created ++ sender.stream.bts = accepted
  read : sender.stream.readCount = (payloads created).length
  count : sender.nextSeqno = (if created = [] then 0 else 1) +
    sender.stream.readCount + (if sender.finSend then 1 else 0)

theorem ledger_new (capacity : Nat) (retxTimeout : UInt16) (isn : WrappingInt32) :
    Ledger (new capacity retxTimeout isn) [] [] where
  valid := ByteStream.valid_new capacity
  total := rfl
  seqno := fun _ member => by simp [tiles, place] at member
  syn := fun _ member => by simp [tiles, place] at member
  fin := fun _ member => by simp [tiles, place] at member
  nonempty := fun _ member => by simp at member
  small := fun _ member => by simp at member
  bytes := rfl
  read := rfl
  count := rfl

section

variable {sender other : TCPSender} {accepted : List Byte} {created : List TCPSegment}

theorem Ledger.of_same (ledger : Ledger sender accepted created)
    (isn : other.isn = sender.isn) (stream : other.stream = sender.stream)
    (nextSeqno : other.nextSeqno = sender.nextSeqno)
    (finSend : other.finSend = sender.finSend) : Ledger other accepted created := by
  obtain ⟨valid, total, seqno, syn, fin, nonempty, small, bytes, read, count⟩ := ledger
  refine ⟨?_, ?_, ?_, syn, ?_, nonempty, small, ?_, ?_, ?_⟩ <;>
    simp only [isn, stream, nextSeqno, finSend] <;> assumption

theorem Ledger.created_ne_nil (ledger : Ledger sender accepted created)
    (sent : 0 < sender.nextSeqno) : created ≠ [] := by
  rintro rfl
  have total := ledger.total
  rw [Tiling.extent_nil] at total
  omega

theorem Ledger.nextSeqno_pos (ledger : Ledger sender accepted created)
    (nonempty : created ≠ []) : 0 < sender.nextSeqno := by
  have count := ledger.count
  rw [if_neg nonempty] at count
  omega

theorem Ledger.write (ledger : Ledger sender accepted created) (data : List Byte) :
    Ledger { sender with stream := (sender.stream.write data).1 }
      (accepted ++ data.take (sender.stream.write data).2) created := by
  obtain ⟨valid, total, seqno, syn, fin, nonempty, small, bytes, read, count⟩ := ledger
  refine ⟨valid.write data, total, seqno, syn, fin, nonempty, small, ?_, ?_, ?_⟩
  · rw [← bytes, ByteStream.write_eq, List.append_assoc]
    congr 2
    rw [← List.take_take]
    simp
  · rw [ByteStream.write_eq]
    exact read
  · rw [ByteStream.write_eq]
    exact count

theorem Ledger.endInput (ledger : Ledger sender accepted created) :
    Ledger { sender with stream := sender.stream.endInput } accepted created := by
  obtain ⟨valid, total, seqno, syn, fin, nonempty, small, bytes, read, count⟩ := ledger
  exact ⟨valid.endInput, total, seqno, syn, fin, nonempty, small, bytes, read, count⟩

end

/-! ## One turn of the loop -/

section Turn

variable (sender : TCPSender) (endSeq : Nat)

def closes : Bool :=
  !sender.finSend && (sender.stream.read (sender.dataSize endSeq)).2.eof &&
    decide (sender.nextSeqno + (sender.loadSegment endSeq).1.lengthInSequenceSpace < endSeq)

theorem makeSegment_eq :
    sender.makeSegment endSeq =
      ({ header :=
          { syn := sender.nextSeqno == 0
            seqno := wrap sender.nextSeqno sender.isn
            fin := sender.closes endSeq }
         payload := .ofString (sender.stream.bts.take (sender.dataSize endSeq)) },
        { sender with
          stream := (sender.stream.read (sender.dataSize endSeq)).2
          finSend := sender.finSend || sender.closes endSeq }) := by
  have payload : (sender.stream.read (sender.dataSize endSeq)).1 =
      sender.stream.bts.take (sender.dataSize endSeq) := by
    rw [ByteStream.read_eq]
  rw [← payload]
  by_cases closing : sender.closes endSeq = true
  · rw [closing, Bool.or_true]
    exact if_pos closing
  · have unclosed := Bool.eq_false_of_not_eq_true closing
    rw [unclosed, Bool.or_false]
    exact if_neg closing

/-- A turn that sends: the made segment goes out. -/
def turn : TCPSender :=
  (sender.makeSegment endSeq).2.transmit (sender.makeSegment endSeq).1

@[simp] theorem makeSegment_payload :
    (sender.makeSegment endSeq).1.payload.str =
      sender.stream.bts.take (sender.dataSize endSeq) := by
  rw [makeSegment_eq, Buffer.str_ofString]

@[simp] theorem turn_isn : (sender.turn endSeq).isn = sender.isn := by
  unfold turn transmit
  rw [makeSegment_eq]

@[simp] theorem turn_nextSeqno : (sender.turn endSeq).nextSeqno =
    sender.nextSeqno + (sender.makeSegment endSeq).1.lengthInSequenceSpace := by
  unfold turn transmit
  rw [makeSegment_eq]

@[simp] theorem turn_stream :
    (sender.turn endSeq).stream = (sender.stream.read (sender.dataSize endSeq)).2 := by
  unfold turn transmit
  rw [makeSegment_eq]

@[simp] theorem turn_finSend :
    (sender.turn endSeq).finSend = (sender.finSend || sender.closes endSeq) := by
  unfold turn transmit
  rw [makeSegment_eq]

theorem dataSize_le_max : sender.dataSize endSeq ≤ TCPConfig.maxPayloadSize := by
  unfold dataSize
  dsimp only
  split <;> omega

theorem dataSize_pos (running : sender.nextSeqno < endSeq) :
    0 < sender.dataSize endSeq := by
  unfold dataSize TCPConfig.maxPayloadSize
  dsimp only
  split <;> omega

theorem makeSegment_length :
    (sender.makeSegment endSeq).1.lengthInSequenceSpace =
      min (sender.dataSize endSeq) sender.stream.bts.length +
        (if sender.nextSeqno = 0 then 1 else 0) +
        (if sender.closes endSeq then 1 else 0) := by
  rw [makeSegment_eq]
  simp [TCPSegment.lengthInSequenceSpace]

theorem makeSegment_idle (running : sender.nextSeqno < endSeq)
    (idle : (sender.makeSegment endSeq).1.lengthInSequenceSpace = 0) :
    (sender.makeSegment endSeq).2 = sender := by
  have positive := sender.dataSize_pos endSeq running
  rw [makeSegment_length] at idle
  have noBytes : sender.stream.bts = [] := List.eq_nil_of_length_eq_zero (by omega)
  have noFin : sender.closes endSeq = false := by
    by_contra closing
    rw [Bool.not_eq_false] at closing
    rw [if_pos closing] at idle
    omega
  rw [makeSegment_eq, noFin, ByteStream.read_of_empty noBytes, Bool.or_false]

end Turn

section

variable {sender : TCPSender} {accepted : List Byte} {created : List TCPSegment}

theorem Ledger.bounds (ledger : Ledger sender accepted created) {tile : Nat × TCPSegment}
    (member : tile ∈ tiles created) :
    tile.1 + tile.2.lengthInSequenceSpace ≤ sender.nextSeqno := by
  have bounds := Tiling.place_bounds TCPSegment.lengthInSequenceSpace member
  rw [ledger.total] at bounds
  omega

theorem Ledger.eq_nil_iff (ledger : Ledger sender accepted created) :
    created = [] ↔ sender.nextSeqno = 0 := by
  constructor
  · rintro rfl
    exact ledger.total.symm
  · intro zero
    by_contra nonempty
    have positive := ledger.nextSeqno_pos nonempty
    omega

theorem Ledger.tile_cases (ledger : Ledger sender accepted created) {seg : TCPSegment}
    {tile : Nat × TCPSegment} (member : tile ∈ tiles (created ++ [seg])) :
    tile ∈ tiles created ∨ tile = (sender.nextSeqno, seg) := by
  rw [tiles_append_singleton, ledger.total] at member
  simpa using member

theorem Ledger.turn_fin {endSeq : Nat} (ledger : Ledger sender accepted created)
    (unfinished : sender.finSend = false)
    (sends : 0 < (sender.makeSegment endSeq).1.lengthInSequenceSpace)
    {tile : Nat × TCPSegment}
    (member : tile ∈ tiles (created ++ [(sender.makeSegment endSeq).1])) :
    tile.2.header.fin = true ↔ (sender.turn endSeq).finSend = true ∧
      tile.1 + tile.2.lengthInSequenceSpace = (sender.turn endSeq).nextSeqno := by
  rw [turn_nextSeqno, turn_finSend, unfinished, Bool.false_or]
  rcases ledger.tile_cases member with old | rfl
  · have bound := ledger.bounds old
    have noFin := ledger.fin tile old
    rw [unfinished] at noFin
    constructor
    · intro isFin
      exact absurd (noFin.mp isFin).1 Bool.false_ne_true
    · rintro ⟨_, last⟩
      omega
  · rw [makeSegment_eq]
    simp

theorem Ledger.turn_count {endSeq : Nat} (ledger : Ledger sender accepted created)
    (unfinished : sender.finSend = false) :
    (sender.turn endSeq).nextSeqno =
      1 + (sender.turn endSeq).stream.readCount +
        (if (sender.turn endSeq).finSend then 1 else 0) := by
  have length := sender.makeSegment_length endSeq
  have count := ledger.count
  rw [turn_nextSeqno, turn_stream, turn_finSend, ByteStream.read_eq, length, unfinished,
    Bool.false_or]
  simp only [ledger.eq_nil_iff, unfinished, Bool.false_eq_true, if_false] at count
  dsimp only
  split_ifs at count ⊢ <;> omega

theorem Ledger.turn {endSeq : Nat} (ledger : Ledger sender accepted created)
    (unfinished : sender.finSend = false)
    (sends : 0 < (sender.makeSegment endSeq).1.lengthInSequenceSpace) :
    Ledger (sender.turn endSeq) accepted
      (created ++ [(sender.makeSegment endSeq).1]) := by
  refine ⟨?_, ?_, ?_, ?_, fun _ => ledger.turn_fin unfinished sends, ?_, ?_, ?_, ?_, ?_⟩
  · rw [turn_stream]
    exact ledger.valid.read _
  · simp [ledger.total]
  · intro tile member
    rw [turn_isn]
    rcases ledger.tile_cases member with old | rfl
    · exact ledger.seqno tile old
    · rw [makeSegment_eq]
  · intro tile member
    rcases ledger.tile_cases member with old | rfl
    · exact ledger.syn tile old
    · rw [makeSegment_eq]
      rfl
  · intro seg member
    rcases List.mem_append.mp member with old | new
    · exact ledger.nonempty seg old
    · rw [List.mem_singleton.mp new]
      exact sends
  · intro seg member
    rcases List.mem_append.mp member with old | new
    · exact ledger.small seg old
    · have max := sender.dataSize_le_max endSeq
      rw [List.mem_singleton.mp new, makeSegment_payload, List.length_take]
      omega
  · rw [payloads_append_singleton, turn_stream, makeSegment_payload, ByteStream.read_eq,
      List.append_assoc, List.take_append_drop]
    exact ledger.bytes
  · rw [payloads_append_singleton, turn_stream, makeSegment_payload, ByteStream.read_eq,
      List.length_append, List.length_take]
    exact congrArg (· + _) ledger.read
  · rw [if_neg (by simp)]
    exact ledger.turn_count unfinished

end

end Sponge.TCPSender
