import Sponge.TCPReceiver.Robustness

namespace Sponge.TCPReceiver

open StreamReassembler (Settled Overruns)

/-! What can still happen to a stream that has ended. At the end `_syn` and
`_checkp` are cleared and the reassembler is kept, so a later SYN is processed
again. -/

def AnyEvent (_session : Session) (_event : Event) : Prop := True

instance (capacity : Nat) (session : Session) (event : Event) :
    Decidable ((sessions capacity AnyEvent).guard session event) :=
  .isTrue trivial

structure Rested (receiver : TCPReceiver) : Prop where
  settled : Settled receiver.reassembler.writePtr receiver.reassembler.stream.entries
  rewound : receiver.streamOut.inputEnded = true → receiver.checkp = 0

theorem rested_new (capacity : Nat) : Rested (new capacity) where
  settled := fun _ member => by simp [new, StreamReassembler.new] at member
  rewound := fun _ => rfl

theorem deliver_rested (receiver : TCPReceiver) (seg : TCPSegment) (index : Nat) :
    Rested (receiver.deliver seg index) := by
  constructor
  · rw [deliver_reassembler]
    exact StreamReassembler.push_settled _ _ _ _
  · unfold deliver
    dsimp only
    split
    next => exact fun _ => rfl
    next running => exact fun ended => absurd ended running

theorem Rested.segmentReceived {receiver : TCPReceiver} (rested : Rested receiver)
    (seg : TCPSegment) : Rested (receiver.segmentReceived seg) := by
  rcases segmentReceived_cases receiver seg with
    ⟨_, ⟨_, _, same⟩ | ⟨_, _, located⟩⟩ | ⟨index, _, _, _, delivered⟩
  · rwa [same]
  · rw [located]
    constructor
    · rw [locate_reassembler]
      exact rested.settled
    · rw [streamOut, locate_reassembler, locate_checkp]
      exact rested.rewound
  · rw [delivered]
    exact deliver_rested _ _ _

theorem Rested.readOut {receiver : TCPReceiver} (rested : Rested receiver) (len : Nat) :
    Rested (receiver.readOut len) := by
  refine ⟨rested.settled, ?_⟩
  rw [readOut_streamOut]
  exact rested.rewound

theorem sessions_rested {capacity : Nat} {session : Session}
    (reached : (sessions capacity AnyEvent).Reachable session) :
    Rested session.receiver := by
  refine Machine.invariant (fun session : Session => Rested session.receiver) ?_ ?_ reached
  · exact rested_new capacity
  · intro session event _ rested
    cases event with
    | segment seg => exact rested.segmentReceived seg
    | read len => exact rested.readOut len

/-- Nothing an observer of the stream can see differs. -/
structure Unaffected (before after : TCPReceiver) : Prop where
  ackno : after.ackno = before.ackno
  written : after.streamOut.bytesWritten = before.streamOut.bytesWritten
  buffered : after.streamOut.bts = before.streamOut.bts
  ended : after.streamOut.inputEnded = before.streamOut.inputEnded

/-- The segments that leave a finished stream alone: those a guard drops, and those
that agree with the acknowledged initial number and bring no byte past the end. -/
def LeavesFinished (receiver : TCPReceiver) (seg : TCPSegment) : Prop :=
  if seg.header.syn = true then
    receiver.syn = true ∨ receiver.windowSize = 0 ∨
      (receiver.ackno =
          some (wrap (receiver.streamOut.bytesWritten + 2) seg.header.seqno) ∧
        ¬receiver.reassembler.Overruns seg.payload.str 0)
  else
    receiver.syn = false ∨
      receiver.windowSize ≤ (seg.header.seqno.rawValue - 1 - receiver.isn).toNat ∨
      (receiver.ackno =
          some (wrap (receiver.streamOut.bytesWritten + 2) ⟨receiver.isn⟩) ∧
        ¬receiver.reassembler.Overruns seg.payload.str
          (seg.header.seqno.rawValue - 1 - receiver.isn).toNat)

theorem deliver_ended {receiver : TCPReceiver} {seg : TCPSegment} {index : Nat}
    (ended : (receiver.deliver seg index).streamOut.inputEnded = true) :
    (receiver.deliver seg index).ack =
      some (wrap ((receiver.deliver seg index).streamOut.bytesWritten + 2)
        ⟨receiver.isn⟩) := by
  unfold deliver at ended ⊢
  dsimp only at ended ⊢
  split
  next => rfl
  next running =>
    rw [if_neg running] at ended
    exact absurd ended running

theorem deliver_unaffected_iff {receiver : TCPReceiver}
    (settled : Settled receiver.reassembler.writePtr receiver.reassembler.stream.entries)
    (ended : receiver.streamOut.inputEnded = true) (room : 0 < receiver.windowSize)
    (seg : TCPSegment) (index : Nat) :
    Unaffected receiver (receiver.deliver seg index) ↔
      receiver.ackno =
          some (wrap (receiver.streamOut.bytesWritten + 2) ⟨receiver.isn⟩) ∧
        ¬receiver.reassembler.Overruns seg.payload.str index := by
  obtain ⟨extra, closed, extended⟩ := receiver.reassembler.push_extends seg.payload.str
    index seg.header.fin
  have output : (receiver.deliver seg index).streamOut = _ :=
    (congrArg StreamReassembler.output (deliver_reassembler receiver seg index)).trans extended
  have stillEnded : (receiver.deliver seg index).streamOut.inputEnded = true := by
    have flag : receiver.reassembler.output.endFlag = true := ended
    rw [output, ByteStream.inputEnded, flag, Bool.true_or]
  have acknowledged := deliver_ended stillEnded
  have same := StreamReassembler.push_bts_eq_iff settled room seg.payload.str index
    seg.header.fin
  rw [extended] at same
  constructor
  · intro unaffected
    refine ⟨?_, same.mp ?_⟩
    · rw [← unaffected.ackno, ← unaffected.written]
      exact acknowledged
    · rw [← extended, ← deliver_reassembler]
      exact unaffected.buffered
  · rintro ⟨agrees, harmless⟩
    have nothing : extra = [] := by simpa using same.mpr harmless
    have written : (receiver.deliver seg index).streamOut.bytesWritten =
        receiver.streamOut.bytesWritten := by
      rw [output, nothing]
      rfl
    refine ⟨?_, written, ?_, by rw [stillEnded, ended]⟩
    · rw [agrees, ← written]
      exact acknowledged
    · rw [output, nothing]
      exact List.append_nil _

theorem locate_unaffected_iff (receiver other : TCPReceiver) (seg : TCPSegment) :
    Unaffected (receiver.locate seg) other ↔ Unaffected receiver other := by
  constructor <;> intro unaffected <;> obtain ⟨ackno, written, buffered, ended⟩ := unaffected
  · simp only [TCPReceiver.ackno, streamOut, locate_ack, locate_reassembler] at *
    exact ⟨ackno, written, buffered, ended⟩
  · refine ⟨?_, ?_, ?_, ?_⟩ <;>
      simp only [TCPReceiver.ackno, streamOut, locate_ack, locate_reassembler] <;> assumption

theorem admission_of_rewound {receiver : TCPReceiver} (rewound : receiver.checkp = 0)
    (seg : TCPSegment) (index : Nat) :
    receiver.admission seg = some index ↔
      receiver.syn = true ∧ index = (receiver.begin - receiver.isn).toNat ∧
        index < receiver.windowSize := by
  -- With the checkpoint back at zero the index is the plain distance from the initial number,
  -- and only the window is left to test.
  have window : SizeT.add 0 receiver.windowSize = receiver.windowSize := by
    refine (SizeT.add_of_lt ?_).trans (Nat.zero_add _)
    rw [Nat.zero_add]
    exact Nat.mod_lt _ (by decide)
  rw [admission_eq_some_iff, rewound, unwrap_zero, window]
  simp

theorem leavesFinished_iff (receiver : TCPReceiver) (seg : TCPSegment) :
    LeavesFinished receiver seg ↔
      (seg.header.syn = true ∧ receiver.syn = true) ∨
      (receiver.locate seg).syn = false ∨
      receiver.windowSize ≤
        ((receiver.locate seg).begin - (receiver.locate seg).isn).toNat ∨
      (receiver.ackno =
          some (wrap (receiver.streamOut.bytesWritten + 2) ⟨(receiver.locate seg).isn⟩) ∧
        ¬receiver.reassembler.Overruns seg.payload.str
          ((receiver.locate seg).begin - (receiver.locate seg).isn).toNat) := by
  unfold LeavesFinished locate
  by_cases syn : seg.header.syn = true
  · simp [syn]
  · simp [syn]

/-- In a finished state a segment leaves acknowledgement, counters, buffer and end
of the stream alone exactly if `LeavesFinished` says so. -/
theorem finished_unaffected_iff {capacity : Nat} {session : Session}
    (reached : (sessions capacity AnyEvent).Reachable session)
    (ended : session.receiver.streamOut.inputEnded = true) (seg : TCPSegment) :
    Unaffected session.receiver (session.receiver.segmentReceived seg) ↔
      LeavesFinished session.receiver seg := by
  have rested := sessions_rested reached
  generalize session.receiver = receiver at ended rested
  have rewound : (receiver.locate seg).checkp = 0 := by
    rw [locate_checkp]
    exact rested.rewound ended
  rw [leavesFinished_iff, ← locate_unaffected_iff receiver _ seg]
  rcases segmentReceived_cases receiver seg with
    ⟨_, ⟨syn, listening, same⟩ | ⟨fresh, refused, located⟩⟩ |
      ⟨index, _, fresh, admitted, delivered⟩
  · rw [same, locate_unaffected_iff]
    exact ⟨fun _ => Or.inl ⟨syn, listening⟩, fun _ => ⟨rfl, rfl, rfl, rfl⟩⟩
  · rw [located]
    refine ⟨fun _ => Or.inr ?_, fun _ => ⟨rfl, rfl, rfl, rfl⟩⟩
    by_contra admitted
    push Not at admitted
    rw [(admission_of_rewound rewound seg _).mpr ⟨by simpa using admitted.1, rfl,
      by rw [locate_windowSize]; exact admitted.2.1⟩] at refused
    cases refused
  · obtain ⟨started, location, inside⟩ := (admission_of_rewound rewound seg index).mp admitted
    have unaffected := @deliver_unaffected_iff (receiver.locate seg)
      (by rw [locate_reassembler]; exact rested.settled)
      (by rw [streamOut, locate_reassembler]; exact ended)
      (Nat.zero_lt_of_lt inside) seg index
    rw [locate_windowSize] at inside
    rw [delivered, unaffected, ackno, locate_ack, streamOut, locate_reassembler, ← location]
    simp only [fresh, started, Nat.not_le.mpr inside, false_or, Bool.true_eq_false]
    rfl

def oneByteStream : TCPSegment :=
  ⟨{ seqno := ⟨9⟩, syn := true, fin := true }, .ofString [1]⟩

theorem finished_unaffected_repeat :
    Unaffected ((new 4).segmentReceived oneByteStream)
      (((new 4).segmentReceived oneByteStream).segmentReceived oneByteStream) :=
  (finished_unaffected_iff ((sessions 4 AnyEvent).reachable_run [.segment oneByteStream]
    (by decide)) (by decide) oneByteStream).mpr
      (Or.inr (Or.inr ⟨by decide, fun overruns => absurd overruns.2.1 (by decide)⟩))

/-- A SYN with another initial number and more payload reopens the finished stream:
the acknowledgement moves and bytes are appended behind the end. -/
theorem finished_stream_reopened :
    ∃ session, (sessions 4 AnyEvent).Reachable session ∧
      session.receiver.streamOut.inputEnded = true ∧
      session.receiver.ackno = some ⟨12⟩ ∧ session.receiver.streamOut.bts = [1] ∧
      (session.receiver.segmentReceived
        ⟨{ seqno := ⟨70⟩, syn := true }, .ofString [7, 8, 9]⟩).ackno = some ⟨75⟩ ∧
      (session.receiver.segmentReceived
        ⟨{ seqno := ⟨70⟩, syn := true }, .ofString [7, 8, 9]⟩).streamOut.bts = [1, 8, 9] ∧
      ¬Unaffected session.receiver (session.receiver.segmentReceived
        ⟨{ seqno := ⟨70⟩, syn := true }, .ofString [7, 8, 9]⟩) := by
  refine ⟨_, (sessions 4 AnyEvent).reachable_run [.segment oneByteStream] (by decide),
    by decide, by decide, by decide, by decide, by decide, ?_⟩
  intro unaffected
  exact absurd unaffected.buffered (by decide)

end Sponge.TCPReceiver
