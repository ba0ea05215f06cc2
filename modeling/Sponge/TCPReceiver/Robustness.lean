import Sponge.StreamReassembler.Invariant
import Sponge.TCPReceiver

namespace Sponge.TCPReceiver

open StreamReassembler (Sound Pushable)

/-! The receiver against arbitrary peers: segments of any content and any sequence
number. -/

def SmallPayload (_session : Session) : Event → Prop
  | .segment seg => seg.payload.str.length < 2 ^ 31
  | .read _ => True

instance (session : Session) (event : Event) : Decidable (SmallPayload session event) :=
  match event with
  | .segment seg => inferInstanceAs (Decidable (seg.payload.str.length < 2 ^ 31))
  | .read _ => .isTrue trivial

instance (capacity : Nat) (session : Session) (event : Event) :
    Decidable ((sessions capacity SmallPayload).guard session event) :=
  inferInstanceAs (Decidable (SmallPayload session event))

theorem segmentReceived_streamOut (receiver : TCPReceiver) (seg : TCPSegment) :
    ∃ extra ended, (receiver.segmentReceived seg).streamOut =
      { receiver.streamOut with
        bts := receiver.streamOut.bts ++ extra
        writeCount := receiver.streamOut.writeCount + extra.length
        endFlag := receiver.streamOut.endFlag || ended } := by
  have still : ∃ extra ended, receiver.streamOut =
      { receiver.streamOut with
        bts := receiver.streamOut.bts ++ extra
        writeCount := receiver.streamOut.writeCount + extra.length
        endFlag := receiver.streamOut.endFlag || ended } :=
    ⟨[], false, by simp⟩
  rcases segmentReceived_cases receiver seg with
    ⟨_, ⟨_, _, same⟩ | ⟨_, _, located⟩⟩ | ⟨index, _, _, _, delivered⟩
  · rw [same]
    exact still
  · rw [located]
    unfold streamOut at still ⊢
    rw [locate_reassembler]
    exact still
  · rw [delivered]
    unfold streamOut
    rw [deliver_reassembler, locate_reassembler]
    exact receiver.reassembler.push_extends seg.payload.str index seg.header.fin

theorem segmentReceived_closing {receiver : TCPReceiver} {seg : TCPSegment}
    (closed : (receiver.segmentReceived seg).reassembler.eofF = true ∨
      (receiver.segmentReceived seg).streamOut.inputEnded = true) :
    (receiver.reassembler.eofF = true ∨ receiver.streamOut.inputEnded = true) ∨
      seg.header.fin = true := by
  unfold streamOut at closed
  rcases segmentReceived_cases receiver seg with
    ⟨_, ⟨_, _, same⟩ | ⟨_, _, located⟩⟩ | ⟨index, _, _, _, delivered⟩
  · rw [same] at closed
    exact Or.inl closed
  · rw [located, locate_reassembler] at closed
    exact Or.inl closed
  · rw [delivered, deliver_reassembler, locate_reassembler] at closed
    exact or_assoc.mpr (StreamReassembler.push_closing closed)

theorem readOut_streamOut (receiver : TCPReceiver) (len : Nat) :
    (receiver.readOut len).streamOut =
      { receiver.streamOut with
        bts := receiver.streamOut.bts.drop len
        readCount := receiver.streamOut.readCount +
          min len receiver.streamOut.bts.length } :=
  congrArg Prod.snd (ByteStream.read_eq receiver.streamOut len)

theorem bytesWritten_le_segmentReceived (receiver : TCPReceiver) (seg : TCPSegment) :
    receiver.streamOut.bytesWritten ≤
      (receiver.segmentReceived seg).streamOut.bytesWritten := by
  obtain ⟨extra, ended, extended⟩ := segmentReceived_streamOut receiver seg
  rw [extended]
  exact Nat.le_add_right _ _

theorem bytesWritten_le_next (session : Session) (event : Event) :
    session.receiver.streamOut.bytesWritten ≤
      (session.next event).receiver.streamOut.bytesWritten := by
  cases event with
  | segment seg => exact bytesWritten_le_segmentReceived session.receiver seg
  | read len =>
      change _ ≤ (session.receiver.readOut len).streamOut.writeCount
      rw [readOut_streamOut]
      exact Nat.le_refl _

/-- What keeps the window guard honest: the checkpoint is the number of bytes
written, or zero. -/
structure Guarded (capacity : Nat) (receiver : TCPReceiver) : Prop where
  sound : receiver.reassembler.Sound
  room : receiver.reassembler.capacity = capacity
  checkpoint : receiver.checkp = 0 ∨ receiver.checkp = receiver.streamOut.bytesWritten

theorem guarded_new (capacity : Nat) : Guarded capacity (new capacity) :=
  ⟨StreamReassembler.sound_new capacity, rfl, Or.inl rfl⟩

section

variable {capacity : Nat} {receiver : TCPReceiver}

theorem Guarded.admission_lt (guarded : Guarded capacity receiver) {seg : TCPSegment}
    {index : Nat} (admitted : (receiver.locate seg).admission seg = some index) :
    index < receiver.streamOut.bytesRead + capacity := by
  obtain ⟨_, _, _, inside⟩ := (admission_eq_some_iff _ _ _).mp admitted
  rw [locate_checkp, locate_windowSize] at inside
  have sum := SizeT.add_le receiver.checkp receiver.windowSize
  have window : receiver.windowSize ≤ _ := guarded.sound.valid.remainingCapacity_le
  have bounded := guarded.sound.valid.bounded
  have counted : receiver.streamOut.bytesWritten = receiver.streamOut.bytesRead + _ :=
    guarded.sound.valid.counted
  rw [guarded.sound.room, guarded.room] at window bounded
  rcases guarded.checkpoint with checkp | checkp <;> omega

theorem Guarded.pushIndex_lt (guarded : Guarded capacity receiver) {seg : TCPSegment}
    {index : Nat} (pushed : receiver.pushIndex seg = some index) :
    index < receiver.streamOut.bytesRead + capacity := by
  rcases segmentReceived_cases receiver seg with
    ⟨ignored, _⟩ | ⟨other, located, _, admitted, _⟩
  · rw [ignored] at pushed
    cases pushed
  · rw [located] at pushed
    cases pushed
    exact guarded.admission_lt admitted

theorem Guarded.pushable (guarded : Guarded capacity receiver) {seg : TCPSegment}
    {index : Nat} (small : capacity < 2 ^ 31) (payload : seg.payload.str.length < 2 ^ 31)
    (written : receiver.streamOut.bytesWritten < 2 ^ 63)
    (admitted : (receiver.locate seg).admission seg = some index) :
    receiver.reassembler.Pushable seg.payload.str index := by
  have inside := guarded.admission_lt admitted
  have counted : receiver.streamOut.bytesWritten = receiver.streamOut.bytesRead + _ :=
    guarded.sound.valid.counted
  have room := guarded.room
  have window : receiver.reassembler.output.readCount + receiver.reassembler.capacity =
      receiver.streamOut.bytesRead + capacity := by rw [room]; rfl
  exact ⟨by omega, by omega, by omega⟩

theorem deliver_checkpoint (receiver : TCPReceiver) (seg : TCPSegment) (index : Nat) :
    (receiver.deliver seg index).checkp = 0 ∨
      (receiver.deliver seg index).checkp =
        (receiver.deliver seg index).streamOut.bytesWritten := by
  unfold deliver
  dsimp only
  split
  · exact Or.inl rfl
  · exact Or.inr rfl

theorem Guarded.segmentReceived (guarded : Guarded capacity receiver) {seg : TCPSegment}
    (small : capacity < 2 ^ 31) (payload : seg.payload.str.length < 2 ^ 31)
    (written : receiver.streamOut.bytesWritten < 2 ^ 63) :
    Guarded capacity (receiver.segmentReceived seg) := by
  rcases segmentReceived_cases receiver seg with
    ⟨_, ⟨_, _, same⟩ | ⟨_, _, located⟩⟩ | ⟨index, _, _, admitted, delivered⟩
  · rwa [same]
  · rw [located]
    refine ⟨?_, ?_, ?_⟩
    · rw [locate_reassembler]
      exact guarded.sound
    · rw [locate_reassembler]
      exact guarded.room
    · rw [locate_checkp, streamOut, locate_reassembler]
      exact guarded.checkpoint
  · rw [delivered]
    have pushable := guarded.pushable small payload written admitted
    refine ⟨?_, ?_, deliver_checkpoint _ _ _⟩
    · rw [deliver_reassembler, locate_reassembler]
      exact guarded.sound.pushSubstring pushable _
    · rw [deliver_reassembler, locate_reassembler, StreamReassembler.push_capacity]
      exact guarded.room

theorem Guarded.readOut (guarded : Guarded capacity receiver) (len : Nat) :
    Guarded capacity (receiver.readOut len) := by
  refine ⟨guarded.sound.readOut len, guarded.room, ?_⟩
  rw [readOut_streamOut]
  exact guarded.checkpoint

end

theorem sessions_guarded {capacity : Nat} (small : capacity < 2 ^ 31) {session : Session}
    (reached : (sessions capacity SmallPayload).Reachable session)
    (written : session.receiver.streamOut.bytesWritten < 2 ^ 63) :
    Guarded capacity session.receiver := by
  refine Machine.invariant_below
    (fun session : Session => Guarded capacity session.receiver)
    (fun session => session.receiver.streamOut.bytesWritten) (2 ^ 63)
    (fun session event _ => bytesWritten_le_next session event) ?_ ?_ reached written
  · exact guarded_new capacity
  · intro session event allowed before _ guarded
    cases event with
    | segment seg => exact guarded.segmentReceived small allowed before
    | read len => exact guarded.readOut len

/-- The receiver never pushes beyond its window, and everything it holds stays
inside. -/
structure InWindow (capacity : Nat) (receiver : TCPReceiver) : Prop where
  pushes : ∀ seg index, receiver.pushIndex seg = some index →
    index < receiver.streamOut.bytesRead + capacity
  entries : ∀ entry ∈ receiver.reassembler.stream.entries,
    entry.1 + entry.2.length ≤ receiver.streamOut.bytesRead + capacity
  accepted : receiver.reassembler.writePtr = receiver.streamOut.bytesWritten
  buffered : receiver.streamOut.bufferSize ≤ capacity

theorem receiver_inWindow {capacity : Nat} (small : capacity < 2 ^ 31) {session : Session}
    (reached : (sessions capacity SmallPayload).Reachable session)
    (written : session.receiver.streamOut.bytesWritten < 2 ^ 63) :
    InWindow capacity session.receiver := by
  have guarded := sessions_guarded small reached written
  refine ⟨fun seg index pushed => guarded.pushIndex_lt pushed, ?_, guarded.sound.written, ?_⟩
  · intro entry member
    have bound := guarded.sound.bounded entry member
    rwa [guarded.room] at bound
  · have bounded := guarded.sound.valid.bounded
    rwa [guarded.sound.room, guarded.room] at bounded

theorem receiver_inWindow_reopened :
    InWindow 4 ((sessions 4 SmallPayload).run (sessions 4 SmallPayload).init
      [.segment ⟨{ seqno := ⟨9⟩, syn := true, fin := true }, .ofString [1, 2]⟩, .read 1,
        .segment ⟨{ seqno := ⟨77⟩, syn := true }, .ofString [3, 4, 5, 6, 7]⟩,
        .segment ⟨{ seqno := ⟨5⟩ }, .ofString [8]⟩]).receiver :=
  receiver_inWindow (by decide) ((sessions 4 SmallPayload).reachable_run _ (by decide))
    (by decide)

end Sponge.TCPReceiver
