import Sponge.Link
import Sponge.TCPHelpers.TCPState

namespace Sponge.Link

open TCPSender (created payloads tiles)

/-! From every state the connection can be brought to rest. -/

/-- The actions that help a connection along without new input: of the
acknowledgements only the receiver's current one is delivered. -/
def Helpful (link : Link) : Action → Prop
  | .sender .fillWindow => True
  | .sender (.tick _) => True
  | .sender (.ackReceived ackno windowSize) => (ackno, windowSize) ∈ report link.receiver
  | .sender _ => False
  | .receiver _ => True

def recoveries (setup : Setup) : Machine Link Action where
  init := (links setup).init
  guard link action := link.Allowed action ∧ link.Helpful action
  next := next

/-- The output is all of `accepted`, nothing is in flight, and both sides are done if
the input has ended. -/
structure Settled (accepted : List Byte) (ended : Bool) (link : Link) : Prop where
  output : link.session.consumed ++ link.receiver.streamOut.bts = accepted
  flight : link.sender.bytesInFlight = 0
  closed : ended = true → link.receiver.streamOut.inputEnded = true ∧
    link.sender.stateSummary = .finAcked

def expired (link : Link) (len ms : Nat) : Link :=
  (link.next (.receiver (.read len))).next (.sender (.tick ms))

def answered (link : Link) (len ms : Nat) (seg : TCPSegment) : Link :=
  (link.expired len ms).next (.receiver (.segment seg))

def RoundAdvances (link : Link) (len ms : Nat) : Prop :=
  ∃ seg ackno windowSize,
    (link.expired len ms).sender.segmentsOut = link.sender.segmentsOut ++ [seg] ∧
      report (link.answered len ms seg).receiver = [(ackno, windowSize)] ∧
      link.sender.ackS <
        ((link.answered len ms seg).next (.sender (.ackReceived ackno windowSize))).sender.ackS

theorem Helpful.keeps {link : Link} {action : Action} (helpful : link.Helpful action) :
    (link.next action).trace.accepted = link.trace.accepted ∧
      (link.next action).sender.stream.endFlag = link.sender.stream.endFlag := by
  match action with
  | .receiver _ => exact ⟨rfl, rfl⟩
  | .sender .fillWindow =>
      exact ⟨List.append_nil _, (TCPSender.fillWindow_frame link.sender).2.2.2⟩
  | .sender (.tick ms) =>
      obtain ⟨_, _, _, _, ticked, _⟩ := TCPSender.tick_cases link.sender ms
      exact ⟨List.append_nil _, congrArg (fun sender => sender.stream.endFlag) ticked⟩
  | .sender (.ackReceived ackno windowSize) =>
      obtain ⟨_, stream, _⟩ := TCPSender.ackReceived_frame link.sender ackno windowSize
      exact ⟨List.append_nil _, congrArg ByteStream.endFlag stream⟩

section

variable {setup : Setup} {link : Link}

theorem Bounded.of_accepted (bounded : Bounded setup link) {other : Link}
    (same : other.trace.accepted = link.trace.accepted) : Bounded setup other :=
  ⟨bounded.positive, bounded.small, by rw [same]; exact bounded.bytes⟩

theorem Joint.keeps (joint : Joint setup link) (bounded : Bounded setup link) {final : Link}
    (onward : (recoveries setup).Reaches link final) :
    Joint setup final ∧ final.trace.accepted = link.trace.accepted ∧
      final.sender.stream.endFlag = link.sender.stream.endFlag := by
  induction onward with
  | refl => exact ⟨joint, rfl, rfl⟩
  | @tail middle _ _ step induction =>
      obtain ⟨action, ⟨allowed, helpful⟩, rfl⟩ := step
      obtain ⟨reached, accepted, endFlag⟩ := induction
      obtain ⟨sameAccepted, sameFlag⟩ := helpful.keeps
      exact ⟨reached.next (bounded.of_accepted accepted) allowed,
        sameAccepted.trans accepted, sameFlag.trans endFlag⟩

/-! ## The oldest segment -/

theorem Joint.receiving_advances (joint : Joint setup link) (bounded : Bounded setup link)
    (receiving : TCPReceiver.Receiving setup.isn link.sent link.session.consumed
      link.session.receiver)
    (window : 0 < link.receiver.windowSize) {tile : Nat × TCPSegment}
    (placed : tile ∈ tiles (created link.trace.emitted))
    (arrived : link.session.synArrived = true)
    (starts : tile.1 ≤ 1 + link.session.receiver.streamOut.bytesWritten)
    (reaches : 1 + link.session.receiver.streamOut.bytesWritten <
      tile.1 + tile.2.lengthInSequenceSpace) :
    link.session.receiver.streamOut.bytesWritten <
        (link.session.receiver.segmentReceived tile.2).streamOut.bytesWritten ∨
      (link.session.receiver.segmentReceived tile.2).streamOut.inputEnded = true := by
  obtain ⟨front, back, parts, position⟩ := Tiling.split_of_mem_place _ placed
  have ledger := joint.recorded.ledger
  have within := receiving.written_le
  have length := sent_length_le joint
  have bytes := bounded.bytes
  have small : tile.2.payload.str.length ≤ 1452 := ledger.small _ (TCPSender.mem_of_tile placed)
  unfold sent at within length
  rw [parts] at ledger within length
  have extent := ledger.extent_front
  rw [Nat.zero_add] at position
  obtain ⟨_, _, _, syn, _⟩ := ledger.split
  by_cases first : front = []
  · -- the SYN carries at most one byte, which the receiver took with it
    rw [first, List.nil_append] at parts
    have greeted : _ ≤ link.session.receiver.streamOut.bytesWritten :=
      joint.greeted arrived _ _ parts
    have noFin := (joint.opening.first _ _ parts).2
    rw [first, Tiling.extent_nil] at position
    unfold TCPSegment.lengthInSequenceSpace at reaches
    rw [noFin, syn.mpr first] at reaches
    simp only [if_true, Bool.false_eq_true, if_false] at reaches
    omega
  · have data : tile.2.header.syn = false :=
      Bool.eq_false_of_not_eq_true fun isSyn => first (syn.mp isSyn)
    have consistent := consistent_of_ledger ledger
    rw [joint.recorded.number, ← parts] at consistent
    have inside : (payloads front).length ≤ (payloads (front ++ tile.2 :: back)).length := by
      simp [payloads]
    rw [if_neg first] at extent
    unfold TCPSegment.lengthInSequenceSpace at reaches
    rw [data] at reaches
    simp only [Bool.false_eq_true, if_false] at reaches
    refine receiving.advances consistent ⟨?_, by omega, ?_⟩ data ?_ window (by omega)
      (by omega)
    · rw [joint.tracked.room]
      exact bounded.small
    · unfold sent
      rw [parts]
      omega
    · exact unwrap_wrap setup.isn (by omega) (by omega) (by omega)

theorem Joint.progress_of_ended (joint : Joint setup link) (bounded : Bounded setup link)
    (arrived : link.session.synArrived = true)
    (ended : link.session.receiver.streamOut.inputEnded = true) :
    progress link.session = link.sender.nextSeqno := by
  have written : _ = (payloads (created link.trace.emitted)).length :=
    (joint.correct bounded).ended ended
  have closed : link.trace.sender.finSend = true := joint.closed (Or.inr ended)
  have count : link.sender.nextSeqno = _ := joint.recorded.ledger.count
  rw [if_neg (joint.started arrived), if_pos closed, joint.recorded.ledger.read] at count
  rw [progress, if_pos arrived, if_pos ended, written, count]

theorem Joint.oldest_advances (joint : Joint setup link) (bounded : Bounded setup link)
    (window : 0 < link.receiver.windowSize) {tile : Nat × TCPSegment}
    (placed : tile ∈ tiles (created link.trace.emitted))
    (starts : tile.1 ≤ link.sender.ackS)
    (reaches : link.sender.ackS < tile.1 + tile.2.lengthInSequenceSpace) :
    link.sender.ackS < progress (link.session.next (.segment tile.2)) := by
  have ledger := joint.recorded.ledger
  have grows := progress_le_next link.session (.segment tile.2)
  have acked := joint.acked
  by_cases known : link.sender.ackS < progress link.session
  · exact Nat.lt_of_lt_of_le known grows
  have level : progress link.session = link.sender.ackS := by omega
  cases arrived : link.session.synArrived with
  | false =>
      rw [progress, arrived] at level
      have zero : link.sender.ackS = 0 := level.symm
      have syn : tile.2.header.syn = true := by
        rw [ledger.syn tile placed, decide_eq_true_eq]
        omega
      unfold progress TCPReceiver.Session.next
      simp only [arrived, syn, Bool.false_or, if_true]
      omega
  | true =>
      have phase := joint.tracked.phase
      rw [arrived, if_pos rfl] at phase
      rcases phase with receiving | finished
      · rw [progress, arrived, if_pos rfl, receiving.running] at level
        simp only [Bool.false_eq_true, if_false, Nat.add_zero] at level
        have more := TCPReceiver.bytesWritten_le_next link.session (.segment tile.2)
        change _ ≤ (link.session.receiver.segmentReceived tile.2).streamOut.bytesWritten
          at more
        unfold progress TCPReceiver.Session.next
        simp only [arrived, Bool.true_or, if_true]
        rcases joint.receiving_advances bounded receiving window placed arrived
          (by omega) (by omega) with written | ended
        · omega
        · rw [ended, if_pos rfl]
          omega
      · -- the receiver has all of it, so the sender waits for nothing
        have same := joint.progress_of_ended bounded arrived finished.complete.ended
        have stop : _ ≤ link.sender.nextSeqno := ledger.bounds placed
        omega

/-! ## One round -/

theorem Joint.drained_window (joint : Joint setup link) (bounded : Bounded setup link)
    {len : Nat} (drains : link.receiver.streamOut.bufferSize ≤ len) :
    0 < (link.next (.receiver (.read len))).receiver.windowSize := by
  have drained := joint.read bounded len
  have empty : (link.session.receiver.readOut len).streamOut.bts = [] := by
    rw [TCPReceiver.readOut_streamOut]
    exact List.drop_of_length_le drains
  have written : (link.session.receiver.readOut len).streamOut.bytesWritten =
      (link.session.receiver.readOut len).streamOut.bytesRead +
        (link.session.receiver.readOut len).streamOut.bts.length :=
    drained.tracked.sound.valid.counted
  have window : (link.session.receiver.readOut len).windowSize = _ -
      ((link.session.receiver.readOut len).streamOut.bytesWritten -
        (link.session.receiver.readOut len).streamOut.bytesRead) :=
    (drained.correct (bounded.of_accepted rfl)).window
  have positive := bounded.positive
  rw [empty, List.length_nil] at written
  change 0 < (link.session.receiver.readOut len).windowSize
  omega

theorem Joint.report_advances (joint : Joint setup link) (bounded : Bounded setup link)
    (ahead : link.sender.ackS < progress link.session) :
    ∃ ackno windowSize, report link.receiver = [(ackno, windowSize)] ∧
      (link.next (.sender (.ackReceived ackno windowSize))).sender.ackS =
        progress link.session := by
  have arrived := arrived_of_progress (Nat.lt_of_le_of_lt (Nat.zero_le _) ahead)
  have ackno : link.receiver.ackno = some (wrap (progress link.session) setup.isn) := by
    rw [progress, arrived, if_pos rfl]
    exact (joint.correct bounded).ackno arrived
  obtain ⟨unwrapped, known⟩ := joint.unwrap_ack bounded (Nat.le_refl _)
  refine ⟨_, _, by simp only [report, ackno]; rfl, ?_⟩
  change (link.sender.ackReceived _ _).ackS = _
  rw [TCPSender.ackReceived_eq unwrapped known]
  exact Nat.max_eq_right (Nat.le_of_lt ahead)

theorem Joint.round (joint : Joint setup link) (bounded : Bounded setup link)
    (inFlight : link.sender.ackS < link.sender.nextSeqno) {len ms : Nat}
    (drains : link.receiver.streamOut.bufferSize ≤ len)
    (expires : link.sender.rto.toNat ≤ ms) :
    ∃ seg ackno windowSize,
      (link.expired len ms).sender.segmentsOut = link.sender.segmentsOut ++ [seg] ∧
        report (link.answered len ms seg).receiver = [(ackno, windowSize)] ∧
        link.sender.ackS < ((link.answered len ms seg).next
          (.sender (.ackReceived ackno windowSize))).sender.ackS ∧
        (recoveries setup).Reaches link ((link.answered len ms seg).next
          (.sender (.ackReceived ackno windowSize))) := by
  have running : link.sender.start = true := joint.recorded.stock.start_iff.mpr inFlight
  obtain ⟨entry, oldest⟩ := joint.recorded.stock.exists_oldest joint.recorded.ledger inFlight
  have out : (link.expired len ms).sender.segmentsOut = link.sender.segmentsOut ++ [entry.2] :=
    congrArg TCPSender.segmentsOut (TCPSender.tick_expired running expires oldest)
  have onward : (recoveries setup).Reaches link (link.expired len ms) :=
    @Machine.Reaches.next _ _ (recoveries setup) _ _
      (@Machine.Reaches.next _ _ (recoveries setup) _ _ .refl (.receiver (.read len))
        ⟨trivial, trivial⟩) (.sender (.tick ms)) ⟨trivial, trivial⟩
  obtain ⟨expired, accepted, _⟩ := joint.keeps bounded onward
  have bounded' := bounded.of_accepted accepted
  obtain ⟨new, rto, rtoBase, retransnum, ticked, _⟩ := TCPSender.tick_cases link.sender ms
  have timer : (link.expired len ms).trace.sender = _ := ticked
  have waiting : (link.expired len ms).trace.sender.segmentsNoack.begin? = some entry := by
    rw [timer]
    exact oldest
  have acked : (link.expired len ms).sender.ackS = link.sender.ackS := by
    rw [show (link.expired len ms).sender = _ from ticked]
  obtain ⟨tile, placed, rfl, starts, reaches⟩ := expired.recorded.stock.oldest waiting
  have allowed : (link.expired len ms).Allowed (.receiver (.segment tile.2)) := by
    change tile.2 ∈ (link.expired len ms).sender.segmentsOut
    rw [out]
    exact List.mem_append_right _ List.mem_cons_self
  have ahead := expired.oldest_advances bounded' (joint.drained_window bounded drains)
    placed starts reaches
  obtain ⟨ackno, windowSize, reported, advanced⟩ :=
    (expired.segment bounded' allowed).report_advances (bounded'.of_accepted rfl) ahead
  have current : (ackno, windowSize) ∈ report (link.answered len ms tile.2).receiver := by
    rw [show report (link.answered len ms tile.2).receiver = _ from reported]
    exact List.mem_cons_self
  refine ⟨tile.2, ackno, windowSize, out, reported, ?_, ?_⟩
  · rw [acked] at ahead
    exact Nat.lt_of_lt_of_eq ahead advanced.symm
  · have delivered := onward.next (.receiver (.segment tile.2)) ⟨allowed, trivial⟩
    exact delivered.next (.sender (.ackReceived ackno windowSize))
      ⟨List.mem_append_right _ current, current⟩

/-! ## Rest -/

theorem Joint.finAcked (joint : Joint setup link) (finished : link.sender.finSend = true)
    (flight : link.sender.bytesInFlight = 0) : link.sender.stateSummary = .finAcked := by
  have eof : link.sender.streamIn.eof = true := joint.finished finished
  have error : link.sender.streamIn.error = false := joint.opening.error
  have count : link.sender.nextSeqno = _ + _ + _ := joint.recorded.ledger.count
  have stored : link.sender.stream.writeCount = _ + link.sender.stream.bts.length :=
    joint.recorded.ledger.valid.counted
  have begun : created link.trace.emitted ≠ [] := by
    obtain ⟨seg, member, _⟩ := joint.recorded.ledger.fin_iff.mpr finished
    exact List.ne_nil_of_mem member
  rw [(joint.input_of_finished finished).2, List.length_nil] at stored
  rw [if_neg begun, if_pos (show link.trace.sender.finSend = true from finished)] at count
  have total : ¬link.sender.nextSeqno < link.sender.streamIn.bytesWritten + 2 := by
    change ¬link.sender.nextSeqno < link.sender.stream.writeCount + 2
    omega
  have sent : link.sender.nextSeqno ≠ 0 := by omega
  simp [TCPSender.stateSummary, TCPSender.nextSeqnoAbsolute, error, sent, flight, eof, total]

theorem Joint.settled (joint : Joint setup link) (bounded : Bounded setup link)
    (level : link.sender.ackS = link.sender.nextSeqno) (begun : link.sender.nextSeqno ≠ 0)
    (empty : link.sender.stream.bts = [])
    (finished : link.sender.stream.endFlag = true → link.sender.finSend = true) :
    Settled link.trace.accepted link.sender.streamIn.inputEnded link := by
  have ledger := joint.recorded.ledger
  have correct := joint.correct bounded
  have count := ledger.count
  have read := ledger.read
  have reached : progress link.session = link.trace.sender.nextSeqno :=
    Nat.le_antisymm (joint.progress_le bounded) (level ▸ joint.acked)
  have arrived := arrived_of_progress (reached ▸ Nat.pos_of_ne_zero begun)
  have within : link.session.receiver.streamOut.bytesWritten ≤
      (payloads (created link.trace.emitted)).length := correct.within
  rw [progress, arrived, if_pos rfl] at reached
  rw [if_neg (joint.started arrived)] at count
  have written : link.session.receiver.streamOut.bytesWritten = link.sent.length := by
    change _ = (payloads (created link.trace.emitted)).length
    by_cases ended : link.session.receiver.streamOut.inputEnded = true
    · exact correct.ended ended
    · rw [if_neg ended] at reached
      omega
  have flight : link.sender.bytesInFlight = 0 := by
    have flight : link.sender.bytesInFlight = link.sender.nextSeqno - link.sender.ackS :=
      ledger.bytesInFlight_eq joint.recorded.stock
        (Nat.lt_trans bounded.bytes (by decide))
    omega
  refine ⟨?_, flight, ?_⟩
  · have output := correct.output
    rwa [written, List.take_length, joint.sent_of_empty empty] at output
  · intro closed
    refine ⟨?_, joint.finAcked (finished closed) flight⟩
    change link.session.receiver.streamOut.inputEnded = true
    by_contra running
    have length : link.sent.length = (payloads (created link.trace.emitted)).length := rfl
    rw [if_pos (show link.trace.sender.finSend = true from finished closed)] at count
    rw [if_neg running] at reached
    omega

theorem Joint.filled (joint : Joint setup link) (bounded : Bounded setup link) :
    (link.next (.sender .fillWindow)).sender.ackS <
        (link.next (.sender .fillWindow)).sender.nextSeqno ∨
      Settled link.trace.accepted link.sender.streamIn.inputEnded
        (link.next (.sender .fillWindow)) := by
  have filled := joint.fillWindow bounded
  obtain ⟨accepted, endFlag⟩ :=
    Helpful.keeps (show link.Helpful (.sender .fillWindow) from trivial)
  have acked : (link.next (.sender .fillWindow)).sender.ackS = link.sender.ackS :=
    (TCPSender.fillWindow_frame link.sender).2.1
  have stock : (link.next (.sender .fillWindow)).sender.ackS ≤
      (link.next (.sender .fillWindow)).sender.nextSeqno := filled.recorded.stock.acked
  have window : link.sender.window.toNat ≠ 0 := fun zero =>
    joint.opening.window (UInt16.toNat_inj.mp zero)
  rw [or_iff_not_imp_left]
  intro level
  have settled := filled.settled (bounded.of_accepted accepted) (by omega)
  rw [accepted, show (link.next (.sender .fillWindow)).sender.streamIn.inputEnded = _ from
    endFlag] at settled
  rcases link.sender.fillWindow_exhausts with finished | full | ⟨begun, empty, running⟩
  · have sent : (link.next (.sender .fillWindow)).sender.nextSeqno ≠ 0 := by
      have count : (link.next (.sender .fillWindow)).sender.nextSeqno = _ + _ + _ :=
        filled.recorded.ledger.count
      rw [if_pos (show (link.next (.sender .fillWindow)).trace.sender.finSend = true
        from finished)] at count
      omega
    exact settled sent (filled.input_of_finished finished).2 fun _ => finished
  · have full : _ ≤ (link.next (.sender .fillWindow)).sender.nextSeqno := full
    omega
  · exact settled begun empty fun ended => absurd (running.symm.trans ended) (by decide)

/-- Rounds lead to rest: each one raises the cumulative acknowledgement, which is
bounded by what there is to send. -/
theorem Joint.recovers (joint : Joint setup link) (bounded : Bounded setup link) :
    ∃ final, (recoveries setup).Reaches link final ∧
      Settled link.trace.accepted link.sender.streamIn.inputEnded final := by
  induction measure : link.trace.accepted.length + 2 - link.sender.ackS
    using Nat.strong_induction_on generalizing link with
  | _ measure induction =>
      have first : (recoveries setup).Reaches link (link.next (.sender .fillWindow)) :=
        @Machine.Reaches.next _ _ (recoveries setup) _ _ .refl (.sender .fillWindow)
          ⟨trivial, trivial⟩
      rcases joint.filled bounded with inFlight | settled
      · obtain ⟨filled, accepted, _⟩ := joint.keeps bounded first
        have acked : (link.next (.sender .fillWindow)).sender.ackS = link.sender.ackS :=
          (TCPSender.fillWindow_frame link.sender).2.1
        have limit : (link.next (.sender .fillWindow)).sender.nextSeqno ≤ _ + 2 :=
          filled.recorded.ledger.nextSeqno_le
        obtain ⟨seg, ackno, windowSize, _, _, advanced, round⟩ := filled.round
          (bounded.of_accepted accepted) inFlight (Nat.le_refl _) (Nat.le_refl _)
        have onward := first.trans round
        obtain ⟨again, sameAccepted, sameFlag⟩ := joint.keeps bounded onward
        rw [accepted] at limit
        obtain ⟨final, rest, settled⟩ := induction _ (by rw [sameAccepted]; omega) again
          (bounded.of_accepted sameAccepted) rfl
        rw [sameAccepted, show (Link.sender _).streamIn.inputEnded = _ from sameFlag]
          at settled
        exact ⟨final, onward.trans rest, settled⟩
      · exact ⟨_, first, settled⟩

end

/-- No dead end: from every reachable state some continuation without new input
delivers and acknowledges everything, and one round of reading, timeout,
retransmission and answer always makes headway. -/
theorem link_recovers {setup : Setup} (positive : 0 < setup.recvCapacity)
    (small : setup.recvCapacity < 2 ^ 31) {link : Link}
    (reached : (links setup).Reachable link)
    (bytes : link.trace.accepted.length < 2 ^ 31 - 2) :
    (∃ final, (recoveries setup).Reaches link final ∧
        Settled link.trace.accepted link.sender.streamIn.inputEnded final) ∧
      (0 < link.sender.bytesInFlight → ∀ len ms,
        link.receiver.streamOut.bufferSize ≤ len → link.sender.rto.toNat ≤ ms →
          link.RoundAdvances len ms) := by
  have joint := links_joint positive small reached bytes
  have bounded : Bounded setup link := ⟨positive, small, bytes⟩
  refine ⟨joint.recovers bounded, ?_⟩
  intro flight len ms drains expires
  have outstanding : link.sender.bytesInFlight = link.sender.nextSeqno - link.sender.ackS :=
    joint.recorded.ledger.bytesInFlight_eq joint.recorded.stock
      (Nat.lt_trans bytes (by decide))
  obtain ⟨seg, ackno, windowSize, out, reported, advanced, _⟩ :=
    joint.round bounded (by omega) drains expires
  exact ⟨seg, ackno, windowSize, out, reported, advanced⟩

theorem link_recovers_full :
    RoundAdvances ((links shortSetup).run (links shortSetup).init
      [.sender (.write [1, 2, 3]), .sender .fillWindow,
        .receiver (.segment ⟨{ seqno := ⟨0xfffffffd⟩, syn := true }, .ofString [1]⟩),
        .sender (.ackReceived ⟨0xffffffff⟩ 1), .sender .endInput, .sender .fillWindow,
        .receiver (.segment ⟨{ seqno := ⟨0xffffffff⟩ }, .ofString [2]⟩),
        .sender (.ackReceived ⟨0⟩ 0), .sender .fillWindow]) 2 1000 :=
  (link_recovers (by decide) (by decide) (Machine.reachable_run _ _ (by decide))
    (by decide)).2 (by decide) 2 1000 (by decide) (by decide)

end Sponge.Link
