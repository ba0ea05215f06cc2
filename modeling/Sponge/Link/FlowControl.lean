import Sponge.Link.Agreement

namespace Sponge.Link

open TCPSender (created)

/-! What the sender puts out against the room the receiver has for it. -/

def rightEdge (link : Link) : Nat :=
  1 + link.receiver.streamOut.bytesRead + link.receiver.reassembler.capacity

/-- The number a sender may try beyond a window that was once closed. -/
def probe (sender : TCPSender) : Nat :=
  if sender.windowZero then 1 else 0

/-- No acknowledgement arrives behind a later one. -/
def Current (link : Link) : Action → Prop
  | .sender (.ackReceived ackno _) =>
      link.sender.ackS ≤ unwrap ackno link.sender.isn link.sender.nextSeqno
  | _ => True

instance (link : Link) (action : Action) : Decidable (Current link action) :=
  match action with
  | .sender (.ackReceived _ _) => inferInstanceAs (Decidable (_ ≤ _))
  | .sender (.write _) | .sender .endInput | .sender .fillWindow | .sender (.tick _)
  | .sender .sendEmptySegment | .receiver _ => .isTrue trivial

def closing (link : Link) : Nat :=
  if link.receiver.streamOut.inputEnded then 1 else 0

structure Controlled (setup : Setup) (link : Link) : Prop where
  acks : ∀ ack ∈ link.acks, ∃ number, ack.1 = wrap number setup.isn ∧
    number ≤ progress link.session ∧ number + ack.2.toNat ≤ link.rightEdge + link.closing
  window : link.receiver.streamOut.inputEnded = false →
    link.sender.ackS + link.sender.window.toNat ≤ link.rightEdge + probe link.sender
  sent : link.sender.nextSeqno ≤ link.rightEdge + probe link.sender

section

variable {setup : Setup} {link : Link}

theorem Joint.report_fits (joint : Joint setup link) (bounded : Bounded setup link)
    {ack : WrappingInt32 × UInt16} (reported : ack ∈ report link.receiver) :
    ∃ number, ack.1 = wrap number setup.isn ∧ number ≤ progress link.session ∧
      number + ack.2.toNat ≤ link.rightEdge + link.closing := by
  obtain ⟨number, positive⟩ := report_number bounded.small joint.tracked reported
  refine ⟨_, number, Nat.le_refl _, ?_⟩
  have valid := joint.tracked.sound.valid
  have counted : link.session.receiver.streamOut.bytesWritten =
      link.session.receiver.streamOut.bytesRead + _ := valid.counted
  have full := valid.bounded
  rw [joint.tracked.sound.room] at full
  have window := (joint.correct bounded).window
  rw [← joint.tracked.room] at window
  have capped : ack.2.toNat ≤ link.session.receiver.windowSize := by
    unfold report at reported
    split at reported
    next => cases reported
    next =>
      rw [List.mem_singleton.mp reported, UInt16.toNat_ofNat']
      exact Nat.le_trans (Nat.mod_le _ _) (Nat.min_le_left _ _)
  rw [progress, if_pos (arrived_of_progress positive)]
  unfold rightEdge closing receiver
  omega

theorem Joint.rightEdge_le (joint : Joint setup link) {action : Action}
    (after : Joint setup (link.next action)) : link.rightEdge ≤ (link.next action).rightEdge := by
  have before : link.receiver.reassembler.capacity = _ := joint.tracked.room
  have same : (link.next action).receiver.reassembler.capacity = _ := after.tracked.room
  unfold rightEdge
  rw [before, same]
  have read : link.receiver.streamOut.bytesRead ≤
      (link.next action).receiver.streamOut.bytesRead := by
    match action with
    | .sender _ => exact Nat.le_refl _
    | .receiver (.segment seg) =>
        obtain ⟨_, _, extended⟩ :=
          TCPReceiver.segmentReceived_streamOut link.session.receiver seg
        change _ ≤ (link.session.receiver.segmentReceived seg).streamOut.readCount
        rw [extended]
        exact Nat.le_refl _
    | .receiver (.read len) =>
        change _ ≤ (link.session.receiver.readOut len).streamOut.readCount
        rw [TCPReceiver.readOut_streamOut]
        exact Nat.le_add_right _ _
  omega

/-! ## Operations of the sender -/

theorem turn_nextSeqno_le_end {sender : TCPSender} {endSeq : Nat}
    (running : sender.nextSeqno < endSeq) (begun : sender.nextSeqno ≠ 0) :
    (sender.turn endSeq).nextSeqno ≤ endSeq := by
  have data := sender.dataSize_eq endSeq
  rw [TCPSender.turn_nextSeqno, TCPSender.makeSegment_length, if_neg begun]
  by_cases closes : sender.closes endSeq = true
  · obtain ⟨_, _, _, room⟩ := (sender.closes_iff endSeq).mp closes
    rw [if_neg begun] at room
    rw [if_pos closes]
    omega
  · rw [if_neg closes]
    omega

theorem Controlled.fillWindow (controlled : Controlled setup link)
    (joint : Joint setup link) (bounded : Bounded setup link) :
    link.sender.fillWindow.nextSeqno ≤ link.rightEdge + probe link.sender := by
  cases ended : link.receiver.streamOut.inputEnded with
  | true =>
      have idle : link.sender.fillWindow = link.sender :=
        if_pos (joint.closed (Or.inr ended))
      rw [idle]
      exact controlled.sent
  | false =>
      have inside := controlled.window ended
      have stays : link.sender.nextSeqno ≤ link.sender.fillWindow.nextSeqno ∧
          link.sender.fillWindow.nextSeqno ≤ link.rightEdge + probe link.sender := by
        refine TCPSender.fillWindow_invariant
          (fun other => link.sender.nextSeqno ≤ other.nextSeqno ∧
            other.nextSeqno ≤ link.rightEdge + probe link.sender) ?_
          ⟨Nat.le_refl _, controlled.sent⟩
        rintro other ⟨grown, _⟩ running sends
        refine ⟨Nat.le_trans grown (Nat.le_of_lt (TCPSender.turn_nextSeqno_lt sends)), ?_⟩
        by_cases begun : other.nextSeqno = 0
        · -- the SYN may take a byte along, and there is room for one
          have unsent : created link.trace.emitted = [] :=
            joint.recorded.ledger.eq_nil_iff.mpr (by
              change link.sender.nextSeqno = 0
              omega)
          have one : link.sender.window.toNat = 1 := by
            rw [show link.sender.window = 1 from joint.opening.before unsent]
            rfl
          have acked : link.sender.ackS ≤ link.sender.nextSeqno := joint.recorded.stock.acked
          have overrun := TCPSender.turn_nextSeqno_le running
          have positive := bounded.positive
          rw [← joint.tracked.room] at positive
          rw [one] at overrun ⊢
          unfold rightEdge receiver
          omega
        · exact Nat.le_trans (turn_nextSeqno_le_end running begun) inside
      exact stays.2

theorem probe_ackReceived {sender : TCPSender} {ackno : WrappingInt32}
    (possible : unwrap ackno sender.isn sender.nextSeqno ≤ sender.nextSeqno)
    (windowSize : UInt16) :
    probe (sender.ackReceived ackno windowSize) =
      if windowSize = 0 then 1 else probe sender := by
  rw [TCPSender.ackReceived_eq rfl possible]
  unfold probe
  by_cases zero : windowSize = 0
  · simp [zero]
  · simp [zero]

theorem probe_le_one (sender : TCPSender) : probe sender ≤ 1 := by
  unfold probe
  split <;> decide

theorem Controlled.ackReceived (controlled : Controlled setup link)
    (joint : Joint setup link) (bounded : Bounded setup link) {ackno : WrappingInt32}
    {windowSize : UInt16} (delivered : (ackno, windowSize) ∈ link.acks)
    (current : link.Current (.sender (.ackReceived ackno windowSize))) :
    (link.receiver.streamOut.inputEnded = false →
      (link.sender.ackReceived ackno windowSize).ackS +
          (link.sender.ackReceived ackno windowSize).window.toNat ≤
        link.rightEdge + probe (link.sender.ackReceived ackno windowSize)) ∧
      probe link.sender ≤ probe (link.sender.ackReceived ackno windowSize) := by
  obtain ⟨number, rfl, known, room⟩ := controlled.acks _ delivered
  obtain ⟨unwrapped, possible⟩ := joint.unwrap_ack bounded known
  have newer : link.sender.ackS ≤ number := unwrapped ▸ current
  have acked : (link.sender.ackReceived (wrap number setup.isn) windowSize).ackS = number := by
    rw [TCPSender.ackReceived_eq unwrapped possible]
    exact Nat.max_eq_right newer
  have known := unwrapped.trans_le possible
  rw [acked, TCPSender.ackReceived_window known, probe_ackReceived known]
  have small := probe_le_one link.sender
  by_cases zero : windowSize = 0
  · subst zero
    rw [if_pos rfl]
    refine ⟨?_, small⟩
    intro running
    have unclosed : link.closing = 0 := if_neg (by simp [running])
    change number + 0 ≤ _ at room
    change number + 1 ≤ _
    omega
  · have positive : windowSize.toNat ≠ 0 := fun vanishes => zero (UInt16.toNat_inj.mp vanishes)
    rw [if_neg zero]
    refine ⟨?_, Nat.le_refl _⟩
    intro running
    have unclosed : link.closing = 0 := if_neg (by simp [running])
    dsimp only at room
    omega

theorem Controlled.sender (controlled : Controlled setup link) (joint : Joint setup link)
    (bounded : Bounded setup link) {op : TCPSender.Op}
    (allowed : link.Allowed (.sender op)) (current : link.Current (.sender op)) :
    Controlled setup (link.next (.sender op)) := by
  obtain ⟨acks, window, sent⟩ := controlled
  have noted : ∀ ack ∈ (link.next (.sender op)).acks, ∃ number,
      ack.1 = wrap number setup.isn ∧ number ≤ progress link.session ∧
        number + ack.2.toNat ≤ link.rightEdge + link.closing := by
    intro ack member
    rcases List.mem_append.mp member with old | reported
    · exact acks ack old
    · exact joint.report_fits bounded reported
  cases op with
  | write | endInput | sendEmptySegment => exact ⟨noted, window, sent⟩
  | fillWindow =>
      obtain ⟨_, ackS, size, _⟩ := TCPSender.fillWindow_frame link.sender
      obtain ⟨_, _, _, _, windowZero⟩ := TCPSender.fillWindow_timer link.sender
      have same : probe link.sender.fillWindow = probe link.sender := by
        unfold probe
        rw [windowZero]
      have filled := Controlled.fillWindow ⟨acks, window, sent⟩ joint bounded
      refine ⟨noted, ?_, ?_⟩
      · change _ → link.sender.fillWindow.ackS + link.sender.fillWindow.window.toNat ≤
          link.rightEdge + probe link.sender.fillWindow
        rw [ackS, size, same]
        exact window
      · change link.sender.fillWindow.nextSeqno ≤
          link.rightEdge + probe link.sender.fillWindow
        rwa [same]
  | ackReceived ackno windowSize =>
      obtain ⟨_, _, nextSeqno, _⟩ := link.sender.ackReceived_frame ackno windowSize
      obtain ⟨opened, grows⟩ :=
        Controlled.ackReceived ⟨acks, window, sent⟩ joint bounded allowed current
      refine ⟨noted, opened, ?_⟩
      change (link.sender.ackReceived ackno windowSize).nextSeqno ≤
        link.rightEdge + probe (link.sender.ackReceived ackno windowSize)
      omega
  | tick ms =>
      obtain ⟨_, _, _, _, ticked, _⟩ := link.sender.tick_cases ms
      refine ⟨noted, ?_, ?_⟩
      · change _ → (link.sender.tick ms).ackS + (link.sender.tick ms).window.toNat ≤
          link.rightEdge + probe (link.sender.tick ms)
        rw [ticked]
        exact window
      · change (link.sender.tick ms).nextSeqno ≤ link.rightEdge + probe (link.sender.tick ms)
        rw [ticked]
        exact sent

/-! ## Events of the receiver -/

theorem Controlled.receiver (controlled : Controlled setup link) (joint : Joint setup link)
    {event : TCPReceiver.Event} (after : Joint setup (link.next (.receiver event)))
    (bounded : Bounded setup (link.next (.receiver event))) :
    Controlled setup (link.next (.receiver event)) := by
  have edge := joint.rightEdge_le after
  have grows := progress_le_next link.session event
  obtain ⟨acks, window, sent⟩ := controlled
  have kept : link.receiver.streamOut.inputEnded = true →
      (link.next (.receiver event)).receiver.streamOut.inputEnded = true :=
    inputEnded_next event
  refine ⟨?_, ?_, Nat.le_trans sent (Nat.add_le_add_right edge _)⟩
  · have closed : link.closing ≤ (link.next (.receiver event)).closing := by
      unfold closing
      split
      next ended => rw [if_pos (kept ended)]
      next => exact Nat.zero_le _
    intro ack member
    rcases List.mem_append.mp member with old | reported
    · obtain ⟨number, same, known, room⟩ := acks ack old
      exact ⟨number, same, Nat.le_trans known grows, by omega⟩
    · exact after.report_fits bounded reported
  · intro running
    have before : link.receiver.streamOut.inputEnded = false := by
      apply Bool.eq_false_of_not_eq_true
      intro ended
      exact Bool.false_ne_true (running.symm.trans (kept ended))
    exact Nat.le_trans (window before) (Nat.add_le_add_right edge _)

end

theorem links_controlled {setup : Setup} (positive : 0 < setup.recvCapacity)
    (small : setup.recvCapacity < 2 ^ 31) {link : Link}
    (reached : ((links setup).restrict Current).Reachable link)
    (bytes : link.trace.accepted.length < 2 ^ 31 - 2) : Controlled setup link := by
  have base : Controlled setup (links setup).init := by
    refine ⟨nofun, fun _ => ?_, Nat.zero_le _⟩
    change 0 + 1 ≤ 1 + 0 + setup.recvCapacity + 0
    omega
  refine links_invariant positive small (Controlled setup) base ?_ reached bytes
  intro link action joint bounded allowed current controlled
  cases action with
  | sender op => exact controlled.sender joint bounded allowed current
  | receiver event =>
      exact controlled.receiver joint (joint.next bounded allowed)
        ⟨bounded.positive, bounded.small, bounded.bytes⟩

/-- Flow control: while no acknowledgement is overtaken by a later one, everything ever
put out fits into the room the receiver still has, but for the one number that probes a
closed window. -/
theorem link_flow_controlled {setup : Setup} (positive : 0 < setup.recvCapacity)
    (small : setup.recvCapacity < 2 ^ 31) {link : Link}
    (reached : ((links setup).restrict Current).Reachable link)
    (bytes : link.trace.accepted.length < 2 ^ 31 - 2) :
    link.sender.nextSeqno ≤ link.rightEdge + probe link.sender :=
  (links_controlled positive small reached bytes).sent

theorem link_flow_controlled_probe :
    let link := ((links shortSetup).restrict Current).run (links shortSetup).init
      [.sender (.write [1, 2, 3, 4]), .sender .fillWindow,
        .receiver (.segment ⟨{ seqno := ⟨0xfffffffd⟩, syn := true }, .ofString [1]⟩),
        .sender (.ackReceived ⟨0xffffffff⟩ 1), .sender .fillWindow,
        .receiver (.segment ⟨{ seqno := ⟨0xffffffff⟩ }, .ofString [2]⟩),
        .sender (.ackReceived ⟨0⟩ 0), .sender .fillWindow]
    link.sender.nextSeqno = 4 ∧ link.rightEdge = 3 ∧
      link.sender.nextSeqno ≤ link.rightEdge + probe link.sender := by
  intro link
  have reached : ((links shortSetup).restrict Current).Reachable link :=
    Machine.reachable_run _ _ (by decide)
  have controlled := link_flow_controlled (by decide) (by decide) reached (by decide)
  exact ⟨by decide, by decide, controlled⟩

/-- An acknowledgement that was overtaken brings its old window back, and the sender
overruns the receiver. -/
example : ∃ link, (links shortSetup).Reachable link ∧
    link.rightEdge + 1 < link.sender.nextSeqno :=
  ⟨_, Machine.reachable_run _
    [.sender .fillWindow,
      .receiver (.segment ⟨{ seqno := ⟨0xfffffffd⟩, syn := true }, .ofString []⟩),
      .sender (.ackReceived ⟨0xfffffffe⟩ 2), .sender (.write [1, 2, 3, 4]),
      .sender .fillWindow,
      .receiver (.segment ⟨{ seqno := ⟨0xfffffffe⟩ }, .ofString [1, 2]⟩),
      .sender (.ackReceived ⟨0⟩ 0), .sender (.ackReceived ⟨0xfffffffe⟩ 2),
      .sender .fillWindow] (by decide), by decide⟩

end Sponge.Link
