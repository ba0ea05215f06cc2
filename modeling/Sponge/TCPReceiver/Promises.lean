import Sponge.TCPReceiver.Consistency

namespace Sponge.TCPReceiver

/-! What a receiver has told an arbitrary peer it does not take back. -/

/-- Until the stream ends, the acknowledgement number is that of the first byte not
written, counted from the SYN that was taken. -/
def Acking (receiver : TCPReceiver) : Prop :=
  receiver.streamOut.inputEnded = false → receiver.ackno ≠ none →
    receiver.syn = true ∧
      receiver.ackno = some (wrap (receiver.streamOut.bytesWritten + 1) ⟨receiver.isn⟩)

/-- The acknowledgements of two states count from the same number, and neither the
acknowledged part nor the window has been drawn back. -/
structure Keeps (before after : TCPReceiver) : Prop where
  isn : after.isn = before.isn
  acked : after.ackno ≠ none
  written : before.streamOut.bytesWritten ≤ after.streamOut.bytesWritten
  read : before.streamOut.bytesRead ≤ after.streamOut.bytesRead

section

variable {capacity : Nat} {receiver : TCPReceiver}

theorem acking_new (capacity : Nat) : Acking (new capacity) :=
  fun _ acked => absurd rfl acked

theorem Keeps.refl (acked : receiver.ackno ≠ none) : Keeps receiver receiver :=
  ⟨rfl, acked, Nat.le_refl _, Nat.le_refl _⟩

theorem Keeps.trans {first second third : TCPReceiver} (front : Keeps first second)
    (back : Keeps second third) : Keeps first third :=
  ⟨back.isn.trans front.isn, back.acked, Nat.le_trans front.written back.written,
    Nat.le_trans front.read back.read⟩

theorem segmentReceived_running {seg : TCPSegment}
    (running : (receiver.segmentReceived seg).streamOut.inputEnded = false) :
    receiver.streamOut.inputEnded = false := by
  obtain ⟨extra, ended, extended⟩ := segmentReceived_streamOut receiver seg
  rw [extended] at running
  exact (Bool.or_eq_false_iff.mp running).1

theorem readOut_running {len : Nat}
    (running : (receiver.readOut len).streamOut.inputEnded = false) :
    receiver.streamOut.inputEnded = false := by
  rw [readOut_streamOut] at running
  exact running

theorem Acking.locate_isn (acking : Acking receiver)
    (running : receiver.streamOut.inputEnded = false) (acked : receiver.ackno ≠ none)
    {seg : TCPSegment} (first : ¬(seg.header.syn = true ∧ receiver.syn = true)) :
    (receiver.locate seg).isn = receiver.isn := by
  have data : ¬ seg.header.syn = true :=
    fun syn => first ⟨syn, (acking running acked).1⟩
  unfold locate
  rw [if_neg data]

theorem deliver_acking {seg : TCPSegment} {index : Nat}
    (admitted : receiver.admission seg = some index) :
    Acking (receiver.deliver seg index) := by
  intro running _
  have started := ((admission_eq_some_iff _ _ _).mp admitted).1
  unfold deliver at running ⊢
  dsimp only at running ⊢
  split at running
  next ended => exact absurd ended (Bool.eq_false_iff.mp running)
  next going =>
    rw [if_neg going]
    exact ⟨started, rfl⟩

theorem Acking.segmentReceived (acking : Acking receiver) (seg : TCPSegment) :
    Acking (receiver.segmentReceived seg) := by
  rcases segmentReceived_cases receiver seg with
    ⟨_, ⟨_, _, same⟩ | ⟨first, _, located⟩⟩ | ⟨index, _, _, admitted, delivered⟩
  · rw [same]
    exact acking
  · rw [located]
    intro running acked
    unfold streamOut at running ⊢
    unfold ackno at acked ⊢
    rw [locate_reassembler] at running ⊢
    rw [locate_ack] at acked ⊢
    obtain ⟨started, number⟩ := acking running acked
    rw [acking.locate_isn running acked first]
    refine ⟨?_, number⟩
    unfold locate
    split
    · rfl
    · exact started
  · rw [delivered]
    exact deliver_acking admitted

theorem Acking.readOut (acking : Acking receiver) (len : Nat) :
    Acking (receiver.readOut len) := by
  intro running acked
  have held := acking (readOut_running running) acked
  rw [readOut_streamOut]
  exact held

theorem Acking.keeps_segment (acking : Acking receiver) (acked : receiver.ackno ≠ none)
    {seg : TCPSegment}
    (running : (receiver.segmentReceived seg).streamOut.inputEnded = false) :
    Keeps receiver (receiver.segmentReceived seg) := by
  have before := segmentReceived_running running
  obtain ⟨extra, ended, extended⟩ := segmentReceived_streamOut receiver seg
  have written := bytesWritten_le_segmentReceived receiver seg
  have read : receiver.streamOut.bytesRead ≤
      (receiver.segmentReceived seg).streamOut.bytesRead := by
    rw [extended]
    exact Nat.le_refl _
  rcases segmentReceived_cases receiver seg with
    ⟨_, ⟨_, _, same⟩ | ⟨first, _, located⟩⟩ | ⟨index, _, first, _, delivered⟩
  · rw [same]
    exact Keeps.refl acked
  · refine ⟨?_, ?_, written, read⟩
    · rw [located]
      exact acking.locate_isn before acked first
    · rw [located, ackno, locate_ack]
      exact acked
  · refine ⟨?_, ?_, written, read⟩
    · rw [delivered, ← acking.locate_isn before acked first]
      unfold deliver
      dsimp only
      split <;> rfl
    · rw [delivered]
      unfold ackno deliver
      dsimp only
      split <;> exact Option.some_ne_none _

theorem keeps_readOut (acked : receiver.ackno ≠ none) (len : Nat) :
    Keeps receiver (receiver.readOut len) := by
  refine ⟨rfl, acked, ?_, ?_⟩
  · rw [readOut_streamOut]
    exact Nat.le_refl _
  · rw [readOut_streamOut]
    exact Nat.le_add_right _ _

end

theorem sessions_acking {capacity : Nat} {session : Session}
    (reached : (sessions capacity SmallPayload).Reachable session) :
    Acking session.receiver := by
  refine Machine.invariant (fun session : Session => Acking session.receiver) ?_ ?_ reached
  · exact acking_new capacity
  · intro session event _ acking
    cases event with
    | segment seg => exact acking.segmentReceived seg
    | read len => exact acking.readOut len

theorem sessions_running {capacity : Nat} {session later : Session}
    (onward : (sessions capacity SmallPayload).Reaches session later)
    (running : later.receiver.streamOut.inputEnded = false) :
    session.receiver.streamOut.inputEnded = false := by
  induction onward with
  | refl => exact running
  | tail _ step induction =>
      obtain ⟨event, _, rfl⟩ := step
      cases event with
      | segment seg => exact induction (segmentReceived_running running)
      | read len => exact induction (readOut_running running)

theorem sessions_keeps {capacity : Nat} {session later : Session}
    (reached : (sessions capacity SmallPayload).Reachable session)
    (onward : (sessions capacity SmallPayload).Reaches session later)
    (acked : session.receiver.ackno ≠ none)
    (running : later.receiver.streamOut.inputEnded = false) :
    Keeps session.receiver later.receiver := by
  induction onward with
  | refl => exact Keeps.refl acked
  | @tail middle _ front step induction =>
      obtain ⟨event, _, rfl⟩ := step
      have acking := sessions_acking (reached.trans front)
      cases event with
      | segment seg =>
          have kept := induction (segmentReceived_running running)
          exact kept.trans (acking.keeps_segment kept.acked running)
      | read len =>
          have kept := induction (readOut_running running)
          exact kept.trans (keeps_readOut kept.acked len)

/-- Whatever the peer sends, until the stream ends a receiver takes back neither an
acknowledgement nor a part of the window it has offered: its numbers all count from one
SYN, and both ends of the window only move forward. -/
theorem receiver_keeps_promises {capacity : Nat} (small : capacity < 2 ^ 31)
    {session later : Session} (reached : (sessions capacity SmallPayload).Reachable session)
    (onward : (sessions capacity SmallPayload).Reaches session later)
    (written : later.receiver.streamOut.bytesWritten < 2 ^ 63)
    (acked : session.receiver.ackno ≠ none)
    (running : later.receiver.streamOut.inputEnded = false) :
    let isn : WrappingInt32 := ⟨session.receiver.isn⟩
    session.receiver.ackno =
        some (wrap (session.receiver.streamOut.bytesWritten + 1) isn) ∧
      later.receiver.ackno = some (wrap (later.receiver.streamOut.bytesWritten + 1) isn) ∧
      session.receiver.streamOut.bytesWritten ≤ later.receiver.streamOut.bytesWritten ∧
      session.receiver.rightEdge ≤ later.receiver.rightEdge := by
  intro isn
  have keeps := sessions_keeps reached onward acked running
  have before : session.receiver.streamOut.inputEnded = false :=
    sessions_running onward running
  have guarded := sessions_guarded small reached (Nat.lt_of_le_of_lt keeps.written written)
  have guardedLater := sessions_guarded small (reached.trans onward) written
  have number := (sessions_acking reached before acked).2
  have numberLater := (sessions_acking (reached.trans onward) running keeps.acked).2
  rw [keeps.isn] at numberLater
  refine ⟨number, numberLater, keeps.written, ?_⟩
  rw [rightEdge_eq guarded.sound (guarded.room ▸ small),
    rightEdge_eq guardedLater.sound (guardedLater.room ▸ small), guarded.room,
    guardedLater.room, before, running]
  have read := keeps.read
  omega

theorem receiver_keeps_promises_hostile :
    let session := (sessions 4 SmallPayload).run (sessions 4 SmallPayload).init
      [.segment ⟨{ seqno := ⟨9⟩, syn := true }, .ofString [1]⟩]
    let later := (sessions 4 SmallPayload).run session
      [.segment ⟨{ seqno := ⟨12⟩ }, .ofString [4]⟩, .read 1,
        .segment ⟨{ seqno := ⟨77⟩, syn := true }, .ofString [9, 9]⟩,
        .segment ⟨{ seqno := ⟨11⟩ }, .ofString [2, 3]⟩]
    later.receiver.ackno = some ⟨13⟩ ∧
      session.receiver.rightEdge ≤ later.receiver.rightEdge := by
  intro session later
  have reached : (sessions 4 SmallPayload).Reachable session :=
    Machine.reachable_run _ _ (by decide)
  have onward : (sessions 4 SmallPayload).Reaches session later :=
    Machine.reaches_run _ .refl _ (by decide)
  have kept := receiver_keeps_promises (by decide) reached onward (by decide) (by decide)
    (by decide)
  exact ⟨by decide, kept.2.2.2⟩

end Sponge.TCPReceiver
