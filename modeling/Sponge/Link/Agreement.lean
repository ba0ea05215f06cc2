import Sponge.Link
import Sponge.TCPSender.Summary

namespace Sponge

/-! What the two ends say about the connection, `state_summary` against
`state_summary`. -/

def TCPReceiverStateSummary.rank : TCPReceiverStateSummary → Nat
  | .error => 0
  | .listen => 1
  | .synRecv => 2
  | .finRecv => 3

def TCPSenderStateSummary.rank : TCPSenderStateSummary → Nat
  | .error => 0
  | .closed => 1
  | .synSent => 2
  | .synAcked => 3
  | .finSent => 4
  | .finAcked => 5

/-- What the receiver may say while the sender says this. -/
def TCPSenderStateSummary.partners : TCPSenderStateSummary → List TCPReceiverStateSummary
  | .error => []
  | .closed => [.listen]
  | .synSent => [.listen, .synRecv]
  | .synAcked => [.synRecv]
  | .finSent => [.synRecv, .finRecv]
  | .finAcked => [.finRecv]

namespace Link

open TCPSender (created payloads)

/-! ## The invariant behind it -/

/-- Before anything is acknowledged the window is one, and no FIN is out. -/
def Unanswered (sender : TCPSender) : Prop :=
  sender.ackS = 0 → sender.window = 1 ∧ sender.finSend = false

theorem Unanswered.fillWindow {sender : TCPSender} (unanswered : Unanswered sender) :
    Unanswered sender.fillWindow := by
  obtain ⟨_, ackS, window, _⟩ := TCPSender.fillWindow_frame sender
  intro nothing
  rw [ackS] at nothing
  obtain ⟨one, unfinished⟩ := unanswered nothing
  refine ⟨window.trans one, ?_⟩
  have room : sender.ackS + sender.window.toNat = 1 := by
    rw [nothing, one]
    rfl
  refine TCPSender.fillWindow_invariant (fun other => other.finSend = false) ?_ unfinished
  rw [room]
  intro other unfinished running _
  rw [TCPSender.turn_finSend, unfinished, Bool.false_or]
  -- the SYN alone uses up the window, which leaves no number for a FIN
  apply Bool.eq_false_of_not_eq_true
  intro closes
  obtain ⟨_, _, _, fits⟩ := (other.closes_iff 1).mp closes
  rw [if_pos (Nat.lt_one_iff.mp running)] at fits
  omega

structure Plain (link : Link) : Prop where
  windowed : TCPSender.Windowed link.sender
  unanswered : Unanswered link.sender
  noError : link.receiver.streamOut.error = false

section

variable {setup : Setup} {link : Link}

theorem Plain.sender (plain : Plain link) (joint : Joint setup link)
    (bounded : Bounded setup link) {op : TCPSender.Op}
    (allowed : link.Allowed (.sender op)) : Plain (link.next (.sender op)) := by
  obtain ⟨windowed, unanswered, noError⟩ := plain
  refine ⟨windowed.perform op, ?_, noError⟩
  change Unanswered (link.sender.perform op)
  cases op with
  | write | endInput | sendEmptySegment => exact unanswered
  | fillWindow => exact unanswered.fillWindow
  | ackReceived ackno windowSize =>
      obtain ⟨number, rfl, positive, known⟩ := joint.acks _ allowed
      obtain ⟨unwrapped, possible⟩ := joint.unwrap_ack bounded known
      intro nothing
      change (link.sender.ackReceived _ _).ackS = 0 at nothing
      rw [TCPSender.ackReceived_eq unwrapped possible] at nothing
      have acked : number ≤ 0 := nothing ▸ Nat.le_max_right _ _
      omega
  | tick ms =>
      obtain ⟨_, _, _, _, ticked, _⟩ := TCPSender.tick_cases link.sender ms
      change Unanswered (link.sender.tick ms)
      rw [ticked]
      exact unanswered

theorem Plain.receiver (plain : Plain link) (event : TCPReceiver.Event) :
    Plain (link.next (.receiver event)) := by
  obtain ⟨windowed, unanswered, noError⟩ := plain
  refine ⟨windowed, unanswered, ?_⟩
  cases event with
  | segment seg =>
      obtain ⟨_, _, extended⟩ :=
        TCPReceiver.segmentReceived_streamOut link.session.receiver seg
      change (link.session.receiver.segmentReceived seg).streamOut.error = false
      rw [extended]
      exact noError
  | read len =>
      change (link.session.receiver.readOut len).streamOut.error = false
      rw [TCPReceiver.readOut_streamOut]
      exact noError

theorem links_plain (positive : 0 < setup.recvCapacity)
    (small : setup.recvCapacity < 2 ^ 31) (reached : (links setup).Reachable link)
    (bytes : link.trace.accepted.length < 2 ^ 31 - 2) : Plain link := by
  refine links_invariant positive small Plain
    ⟨⟨Nat.zero_lt_one, Nat.zero_le _⟩, fun _ => ⟨rfl, rfl⟩, rfl⟩ ?_
    reached.unrestricted bytes
  intro link action joint bounded allowed _ plain
  cases action with
  | sender op => exact plain.sender joint bounded allowed
  | receiver event => exact plain.receiver event

/-! ## Both summaries in terms of the numbers -/

theorem Joint.sender_stage (joint : Joint setup link) (plain : Plain link) :
    TCPSender.Stage link.sender link.sender.stateSummary := by
  have closing : TCPSender.Closing link.sender := ⟨joint.finished, joint.opening.error⟩
  exact closing.stage joint.recorded.ledger joint.recorded.stock.acked plain.windowed

theorem Joint.receiver_summary (joint : Joint setup link) (bounded : Bounded setup link)
    (plain : Plain link) :
    link.receiver.stateSummary =
      if progress link.session = 0 then .listen
      else if link.receiver.streamOut.inputEnded = true then .finRecv
      else .synRecv := by
  have silent : link.receiver.ackno = none ↔ _ := (joint.correct bounded).silent
  have waiting : progress link.session = 0 ↔ link.receiver.ackno = none := by
    rw [silent]
    constructor
    · intro nothing
      by_contra arrived
      rw [progress, if_pos (Bool.not_eq_false _ ▸ arrived)] at nothing
      omega
    · intro waiting
      rw [progress, waiting]
      rfl
  unfold TCPReceiver.stateSummary
  rw [plain.noError, if_neg Bool.false_ne_true]
  simp only [waiting]

theorem Joint.ended_of_level (joint : Joint setup link) (bounded : Bounded setup link)
    (finished : link.sender.finSend = true)
    (level : link.sender.nextSeqno ≤ progress link.session) :
    link.receiver.streamOut.inputEnded = true := by
  have within : link.session.receiver.streamOut.bytesWritten ≤
      (payloads (created link.trace.emitted)).length := (joint.correct bounded).within
  have read := joint.recorded.ledger.read
  have count : link.sender.nextSeqno = _ := joint.recorded.ledger.count
  by_contra running
  have unended : ¬link.session.receiver.streamOut.inputEnded = true := running
  rw [if_pos (show link.trace.sender.finSend = true from finished)] at count
  rw [progress, if_neg unended] at level
  split at level
  next arrived =>
    rw [if_neg (joint.started arrived)] at count
    omega
  next => omega

theorem Joint.compatible (joint : Joint setup link) (bounded : Bounded setup link)
    (plain : Plain link) :
    link.receiver.stateSummary ∈ link.sender.stateSummary.partners := by
  have ahead := joint.progress_le bounded
  have behind := joint.acked
  have acked : link.sender.ackS ≤ link.sender.nextSeqno := joint.recorded.stock.acked
  have fin : link.receiver.streamOut.inputEnded = true → link.sender.finSend = true :=
    fun ended => joint.closed (Or.inr ended)
  have stage := joint.sender_stage plain
  rw [joint.receiver_summary bounded plain]
  generalize link.sender.stateSummary = summary at stage ⊢
  cases stage with
  | closed unsent =>
      rw [if_pos (by omega)]
      decide
  | synSent _ unacked =>
      have running : ¬link.receiver.streamOut.inputEnded = true := by
        intro ended
        rw [(plain.unanswered unacked).2] at fin
        exact Bool.false_ne_true (fin ended)
      rw [if_neg running]
      split <;> decide
  | synAcked _ answered unfinished =>
      rw [if_neg (by omega), if_neg (fun ended => Bool.false_ne_true (unfinished ▸ fin ended))]
      decide
  | finSent _ answered _ _ =>
      rw [if_neg (by omega)]
      split <;> decide
  | finAcked _ answered finished level =>
      rw [if_neg (by omega), if_pos (joint.ended_of_level bounded finished (by omega))]
      decide

/-! ## Steps only lead forward -/

theorem perform_forward (sender : TCPSender) (op : TCPSender.Op) :
    sender.nextSeqno ≤ (sender.perform op).nextSeqno ∧
      (sender.finSend = true →
        (sender.perform op).finSend = true ∧ (sender.perform op).nextSeqno = sender.nextSeqno) := by
  cases op with
  | write | endInput | sendEmptySegment => exact ⟨Nat.le_refl _, fun finished => ⟨finished, rfl⟩⟩
  | fillWindow =>
      refine ⟨sender.nextSeqno_le_fillWindow, ?_⟩
      intro finished
      have same : sender.perform .fillWindow = sender := if_pos finished
      rw [same]
      exact ⟨finished, rfl⟩
  | ackReceived ackno windowSize =>
      obtain ⟨_, _, nextSeqno, finSend, _⟩ := sender.ackReceived_frame ackno windowSize
      exact ⟨Nat.le_of_eq nextSeqno.symm, fun finished => ⟨finSend.trans finished, nextSeqno⟩⟩
  | tick ms =>
      obtain ⟨_, _, _, _, ticked, _⟩ := sender.tick_cases ms
      change _ ≤ (sender.tick ms).nextSeqno ∧
        (_ → (sender.tick ms).finSend = true ∧ (sender.tick ms).nextSeqno = _)
      rw [ticked]
      exact ⟨Nat.le_refl _, fun finished => ⟨finished, rfl⟩⟩

theorem stage_forward {sender other : TCPSender} {summary later : TCPSenderStateSummary}
    (before : TCPSender.Stage sender summary) (after : TCPSender.Stage other later)
    (grows : sender.nextSeqno ≤ other.nextSeqno) (acks : sender.ackS ≤ other.ackS)
    (fin : sender.finSend = true →
      other.finSend = true ∧ other.nextSeqno = sender.nextSeqno) :
    summary.rank ≤ later.rank := by
  cases before with
  | closed => cases after <;> decide
  | synSent sent _ =>
      cases after with
      | closed unsent => omega
      | synSent | synAcked | finSent | finAcked => decide
  | synAcked sent acked _ =>
      cases after with
      | closed | synSent => omega
      | synAcked | finSent | finAcked => decide
  | finSent sent acked finished _ =>
      cases after with
      | closed | synSent => omega
      | synAcked _ _ unfinished => exact absurd ((fin finished).1.symm.trans unfinished) (by decide)
      | finSent | finAcked => decide
  | finAcked sent acked finished level =>
      obtain ⟨still, same⟩ := fin finished
      cases after with
      | closed | synSent | finSent => omega
      | synAcked _ _ unfinished => exact absurd (still.symm.trans unfinished) (by decide)
      | finAcked => decide

theorem Joint.sender_forward (joint : Joint setup link) (plain : Plain link)
    {op : TCPSender.Op} (joint' : Joint setup (link.next (.sender op)))
    (plain' : Plain (link.next (.sender op))) :
    link.sender.stateSummary.rank ≤ (link.next (.sender op)).sender.stateSummary.rank := by
  obtain ⟨grows, fin⟩ := perform_forward link.sender op
  exact stage_forward (joint.sender_stage plain) (joint'.sender_stage plain') grows
    (link.sender.ackS_le_perform op) fin

theorem inputEnded_next {session : TCPReceiver.Session} (event : TCPReceiver.Event)
    (ended : session.receiver.streamOut.inputEnded = true) :
    (session.next event).receiver.streamOut.inputEnded = true := by
  cases event with
  | segment seg =>
      obtain ⟨_, more, extended⟩ := TCPReceiver.segmentReceived_streamOut session.receiver seg
      change (session.receiver.segmentReceived seg).streamOut.endFlag = true
      rw [extended]
      exact Bool.or_eq_true_iff.mpr (Or.inl ended)
  | read len =>
      change (session.receiver.readOut len).streamOut.endFlag = true
      rw [TCPReceiver.readOut_streamOut]
      exact ended

theorem Joint.receiver_forward (joint : Joint setup link) (bounded : Bounded setup link)
    (plain : Plain link) {event : TCPReceiver.Event}
    (joint' : Joint setup (link.next (.receiver event)))
    (plain' : Plain (link.next (.receiver event))) :
    link.receiver.stateSummary.rank ≤
      (link.next (.receiver event)).receiver.stateSummary.rank := by
  have grows := progress_le_next link.session event
  rw [joint.receiver_summary bounded plain,
    joint'.receiver_summary ⟨bounded.positive, bounded.small, bounded.bytes⟩ plain']
  change _ ≤ TCPReceiverStateSummary.rank (if progress (link.session.next event) = 0 then _
    else if (link.session.next event).receiver.streamOut.inputEnded = true then _ else _)
  by_cases waiting : progress link.session = 0
  · rw [if_pos waiting]
    split_ifs <;> decide
  rw [if_neg waiting, if_neg (show progress (link.session.next event) ≠ 0 by omega)]
  by_cases ended : link.session.receiver.streamOut.inputEnded = true
  · rw [if_pos (show link.receiver.streamOut.inputEnded = true from ended),
      if_pos (inputEnded_next event ended)]
  · rw [if_neg (show ¬link.receiver.streamOut.inputEnded = true from ended)]
    split_ifs <;> decide

end

/-- Whatever the network does, the two summaries fit together: nobody takes the
connection for open, closed or acknowledged before the other side can know. -/
theorem link_states_agree {setup : Setup} (positive : 0 < setup.recvCapacity)
    (small : setup.recvCapacity < 2 ^ 31) {link : Link}
    (reached : (links setup).Reachable link)
    (bytes : link.trace.accepted.length < 2 ^ 31 - 2) :
    link.receiver.stateSummary ∈ link.sender.stateSummary.partners :=
  (links_joint positive small reached bytes).compatible ⟨positive, small, bytes⟩
    (links_plain positive small reached bytes)

theorem link_states_agree_closing :
    let link := (links shortSetup).run (links shortSetup).init
      [.sender .fillWindow,
        .receiver (.segment ⟨{ seqno := ⟨0xfffffffd⟩, syn := true }, .ofString []⟩),
        .sender (.ackReceived ⟨0xfffffffe⟩ 2), .sender .endInput, .sender .fillWindow,
        .receiver (.segment ⟨{ seqno := ⟨0xfffffffe⟩, fin := true }, .ofString []⟩)]
    link.sender.stateSummary = .finSent ∧ link.receiver.stateSummary = .finRecv ∧
      link.receiver.stateSummary ∈ link.sender.stateSummary.partners := by
  intro link
  have reached : (links shortSetup).Reachable link := Machine.reachable_run _ _ (by decide)
  have agree := link_states_agree (by decide) (by decide) reached (by decide)
  exact ⟨by decide, by decide, agree⟩

/-- Neither summary ever goes back. -/
theorem link_states_forward {setup : Setup} (positive : 0 < setup.recvCapacity)
    (small : setup.recvCapacity < 2 ^ 31) {link later : Link}
    (reached : (links setup).Reachable link) (onward : (links setup).Reaches link later)
    (bytes : later.trace.accepted.length < 2 ^ 31 - 2) :
    link.sender.stateSummary.rank ≤ later.sender.stateSummary.rank ∧
      link.receiver.stateSummary.rank ≤ later.receiver.stateSummary.rank := by
  induction onward with
  | refl => exact ⟨Nat.le_refl _, Nat.le_refl _⟩
  | @tail middle _ front step induction =>
      obtain ⟨action, allowed, rfl⟩ := step
      have before := Nat.lt_of_le_of_lt (accepted_le_next middle action) bytes
      have there := reached.trans front
      have joint := links_joint positive small there before
      have plain := links_plain positive small there before
      have joint' := links_joint positive small (there.next action allowed) bytes
      have plain' := links_plain positive small (there.next action allowed) bytes
      obtain ⟨sender, receiver⟩ := induction before
      cases action with
      | sender op =>
          exact ⟨Nat.le_trans sender (joint.sender_forward plain joint' plain'), receiver⟩
      | receiver event =>
          exact ⟨sender, Nat.le_trans receiver
            (joint.receiver_forward ⟨positive, small, before⟩ plain joint' plain')⟩

theorem link_states_forward_repeated :
    let link := (links shortSetup).run (links shortSetup).init
      [.sender .fillWindow,
        .receiver (.segment ⟨{ seqno := ⟨0xfffffffd⟩, syn := true }, .ofString []⟩)]
    let later := (links shortSetup).run link
      [.sender (.ackReceived ⟨0xfffffffe⟩ 2),
        .receiver (.segment ⟨{ seqno := ⟨0xfffffffd⟩, syn := true }, .ofString []⟩),
        .sender (.ackReceived ⟨0xfffffffe⟩ 2)]
    link.sender.stateSummary.rank ≤ later.sender.stateSummary.rank ∧
      link.receiver.stateSummary.rank ≤ later.receiver.stateSummary.rank := by
  intro link later
  exact link_states_forward (by decide) (by decide)
    (Machine.reachable_run (links shortSetup) _ (by decide))
    (Machine.reaches_run (links shortSetup) .refl _ (by decide)) (by decide)

end Link

end Sponge
