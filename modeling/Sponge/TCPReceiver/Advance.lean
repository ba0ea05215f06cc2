import Sponge.TCPReceiver.Coverage

namespace Sponge.TCPReceiver

open StreamReassembler (Carries)

/-! When a segment moves the receiver on. -/

section

variable {isn : WrappingInt32} {source consumed : List Byte} {receiver : TCPReceiver}

theorem Receiving.answering (receiving : Receiving isn source consumed receiver) :
    Answering isn receiver := by
  refine ⟨receiving.number, ?_, fun _ => ⟨receiving.syn, receiving.checkp⟩⟩
  unfold absoluteAckno
  rw [receiving.running, if_neg Bool.false_ne_true, Nat.add_zero, Nat.add_comm]
  exact receiving.ack

/-- With a window that is not closed, a segment that covers the next number is taken:
it adds a byte or ends the stream. -/
theorem Receiving.advances (receiving : Receiving isn source consumed receiver)
    {seg : TCPSegment} {index : Nat} (consistent : Consistent isn source index seg)
    (bounded : Bounded source receiver seg) (data : seg.header.syn = false)
    (located : unwrap (wrap index isn) isn receiver.streamOut.bytesWritten = index)
    (window : 0 < receiver.windowSize)
    (starts : index ≤ receiver.streamOut.bytesWritten)
    (reaches : receiver.streamOut.bytesWritten <
      index + seg.payload.str.length + (if seg.header.fin then 1 else 0)) :
    receiver.streamOut.bytesWritten <
        (receiver.segmentReceived seg).streamOut.bytesWritten ∨
      (receiver.segmentReceived seg).streamOut.inputEnded = true := by
  have sound := receiving.carries.sound
  have length := bounded.source
  have payload := bounded.payload
  have small := bounded.capacity
  have written := receiving.written_le
  have counted := sound.valid.counted
  have windowFits : receiver.reassembler.windowEnd < 2 ^ 64 := by
    change receiver.reassembler.output.readCount + _ < _
    change receiver.reassembler.output.writeCount ≤ _ at written
    omega
  have covers : CoversNext isn source receiver seg index :=
    ⟨receiving.answering, receiving.carries.confined windowFits, receiving.running, window,
      consistent, data, by omega, located, starts, reaches⟩
  exact covers.moves windowFits (by omega)

theorem Listening.first_written (listening : Listening source consumed receiver)
    {seg : TCPSegment} {index : Nat} (syn : seg.header.syn = true)
    (consistent : Consistent isn source index seg)
    (bounded : Bounded source receiver seg)
    (positive : 0 < receiver.reassembler.capacity)
    (short : seg.payload.str.length ≤ 1) :
    seg.payload.str.length ≤ (receiver.segmentReceived seg).streamOut.bytesWritten := by
  obtain ⟨pushable, delivered⟩ := listening.delivers syn consistent bounded positive
  have sound := listening.carries.sound
  have untouched : receiver.reassembler.writePtr = 0 :=
    sound.written.trans listening.untouched
  rw [delivered, streamOut, deliver_reassembler, locate_reassembler]
  by_cases byte : seg.payload.str.length = 0
  · omega
  · have grows := sound.push_advances pushable seg.header.fin (by omega) (by
      rw [StreamReassembler.length_inWindow]
      omega)
    rw [(sound.pushSubstring pushable _).written] at grows
    exact Nat.le_trans short (Nat.one_le_iff_ne_zero.mpr (Nat.ne_zero_of_lt grows))

theorem Receiving.takes (receiving : Receiving isn source consumed receiver)
    {seg : TCPSegment} {index : Nat} (consistent : Consistent isn source index seg)
    (bounded : Bounded source receiver seg) (data : seg.header.syn = false)
    (located : unwrap (wrap index isn) isn receiver.streamOut.bytesWritten = index)
    (starts : index ≤ receiver.streamOut.bytesWritten)
    (reaches : receiver.streamOut.bytesWritten <
      index + seg.payload.str.length + (if seg.header.fin then 1 else 0))
    (fits : index + seg.payload.str.length + (if seg.header.fin then 1 else 0) ≤
      receiver.streamOut.bytesRead + receiver.reassembler.capacity) :
    index + seg.payload.str.length ≤
        (receiver.segmentReceived seg).streamOut.bytesWritten ∧
      (seg.header.fin = true →
        (receiver.segmentReceived seg).streamOut.inputEnded = true) := by
  have carries := receiving.carries
  have sound := carries.sound
  have length := bounded.source
  have payload := bounded.payload
  have small := bounded.capacity
  have written := receiving.written_le
  have counted := sound.valid.counted
  have front : receiver.reassembler.writePtr = receiver.streamOut.bytesWritten := sound.written
  have windowFits : receiver.reassembler.windowEnd < 2 ^ 64 := by
    change receiver.reassembler.output.readCount + _ < _
    change receiver.reassembler.output.writeCount ≤ _ at written
    omega
  have confined := carries.confined windowFits
  have total : _ = receiver.streamOut.bytesRead + receiver.reassembler.capacity :=
    bytesWritten_add_windowSize confined
  have covers : CoversNext isn source receiver seg index :=
    ⟨receiving.answering, confined, receiving.running, by omega, consistent, data, by omega,
      located, starts, reaches⟩
  have inside : index + seg.payload.str.length ≤ receiver.reassembler.windowEnd :=
    Nat.le_trans (Nat.le_add_right _ _) fits
  have pushable : receiver.reassembler.Pushable seg.payload.str index :=
    ⟨windowFits, Nat.le_trans (Nat.le_add_right _ _) inside, by omega⟩
  have admitted : (receiver.locate seg).admission seg = some index := by
    rw [covers.admission_iff, SizeT.add_of_lt pushable.endFits, Nat.mod_eq_of_lt windowFits]
    change _ ∧ _ ∧ index < receiver.streamOut.bytesRead + receiver.reassembler.capacity
    refine ⟨rfl, ?_, by omega⟩
    split at reaches <;> omega
  rcases covers.streamOut_cases with ⟨refused, _⟩ | ⟨_, pushed⟩
  · rw [refused] at admitted
    cases admitted
  rw [pushed]
  have whole : (receiver.reassembler.inWindow seg.payload.str index).length =
      seg.payload.str.length := by
    rw [StreamReassembler.length_inWindow]
    change _ ≤ receiver.reassembler.output.readCount + _ at inside
    omega
  have reached := sound.push_reaches pushable seg.header.fin (front ▸ starts)
  rw [whole] at reached
  refine ⟨Nat.le_trans reached (Nat.le_of_eq (sound.pushSubstring pushable _).written), ?_⟩
  intro fin
  have carried := carries.pushSubstring pushable consistent.payload consistent.last
  have ends : receiver.reassembler.ends seg.payload.str index seg.header.fin = true := by
    rw [StreamReassembler.ends, fin, Bool.true_and, decide_eq_true_eq]
    exact inside
  apply StreamReassembler.push_noted
  · rw [StreamReassembler.push_eofF pushable, ends, Bool.or_true]
  · rw [StreamReassembler.push_eofIndex pushable, if_pos ends]
    have limit := carried.front
    rw [← consistent.last fin] at limit
    exact Nat.le_antisymm limit reached

end

end Sponge.TCPReceiver
