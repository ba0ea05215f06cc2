import Sponge.TCPHelpers.TCPState
import Sponge.TCPSender.Window

namespace Sponge.TCPSender

/-! `state_summary` against the events of the run. -/

def Orderly (trace : Trace) : Op → Prop
  | .write _ => trace.sender.streamIn.inputEnded = false
  | _ => True

instance (trace : Trace) (op : Op) : Decidable (Orderly trace op) :=
  match op with
  | .write _ => inferInstanceAs (Decidable (_ = false))
  | .endInput | .fillWindow | .ackReceived _ _ | .tick _ | .sendEmptySegment =>
      .isTrue trivial

def orderlyTraces (capacity : Nat) (retxTimeout : UInt16) (isn : WrappingInt32) :
    Machine Trace Op :=
  (traces capacity retxTimeout isn).restrict Orderly

instance (capacity : Nat) (retxTimeout : UInt16) (isn : WrappingInt32) (trace : Trace)
    (op : Op) : Decidable ((orderlyTraces capacity retxTimeout isn).guard trace op) :=
  inferInstanceAs (Decidable (_ ∧ Orderly trace op))

/-- FIN is only out when everything is, and nothing is written behind it. -/
structure Closing (sender : TCPSender) : Prop where
  eof : sender.finSend = true → sender.stream.eof = true
  error : sender.stream.error = false

section

variable {sender : TCPSender} {accepted : List Byte} {created : List TCPSegment}

theorem fillWindow_error (sender : TCPSender) :
    sender.fillWindow.stream.error = sender.stream.error := by
  refine fillWindow_invariant (fun other => other.stream.error = sender.stream.error) ?_ rfl
  intro other same _ _
  rw [turn_stream, ByteStream.read_eq]
  exact same

theorem Closing.perform {trace : Trace} {op : Op} (closing : Closing trace.sender)
    (ledger : Ledger trace.sender accepted created) (stock : Stock trace.sender created)
    (orderly : Orderly trace op) : Closing (trace.sender.perform op) := by
  obtain ⟨eof, error⟩ := closing
  cases op with
  | write data =>
      constructor
      · intro finished
        have ended := Bool.and_eq_true_iff.mp (eof finished)
        have opened : trace.sender.stream.endFlag = false := orderly
        rw [opened] at ended
        cases ended.1
      · change (trace.sender.stream.write data).1.error = false
        rw [ByteStream.write_eq]
        exact error
  | endInput =>
      refine ⟨fun finished => ?_, error⟩
      exact Bool.and_eq_true_iff.mpr ⟨rfl, (Bool.and_eq_true_iff.mp (eof finished)).2⟩
  | fillWindow =>
      refine ⟨?_, (fillWindow_error trace.sender).trans error⟩
      obtain ⟨new, _, _, _, ⟨_, _, same⟩ | ⟨_, closes⟩⟩ := fillWindow_spec ledger stock
      · change trace.sender.fillWindow.finSend = true →
          trace.sender.fillWindow.stream.eof = true
        rw [same]
        exact eof
      · exact closes
  | ackReceived ackno windowSize =>
      obtain ⟨_, stream, _, finSend, _⟩ := ackReceived_frame trace.sender ackno windowSize
      change Closing (trace.sender.ackReceived ackno windowSize)
      constructor
      · rw [finSend, stream]
        exact eof
      · rw [stream]
        exact error
  | tick ms =>
      obtain ⟨new, rto, rtoBase, retransnum, ticked, _⟩ := tick_cases trace.sender ms
      change Closing (trace.sender.tick ms)
      rw [ticked]
      exact ⟨eof, error⟩
  | sendEmptySegment => exact ⟨eof, error⟩

theorem orderlyTraces_closing {capacity : Nat} {retxTimeout : UInt16} {isn : WrappingInt32}
    {trace : Trace} (reached : (orderlyTraces capacity retxTimeout isn).Reachable trace) :
    Recorded isn trace ∧ Closing trace.sender := by
  refine Machine.invariant (fun trace => Recorded isn trace ∧ Closing trace.sender)
    ?_ ?_ reached
  · exact ⟨recorded_new capacity retxTimeout isn, nofun, rfl⟩
  · rintro trace op ⟨_, orderly⟩ ⟨recorded, closing⟩
    exact ⟨recorded.next op, closing.perform recorded.ledger recorded.stock orderly⟩

theorem Ledger.nextSeqno_of_eof (ledger : Ledger sender accepted created)
    (sent : sender.nextSeqno ≠ 0) (eof : sender.stream.eof = true) :
    sender.nextSeqno =
      sender.streamIn.bytesWritten + 1 + (if sender.finSend then 1 else 0) := by
  have count := ledger.count
  have counted : sender.streamIn.bytesWritten = _ := ledger.valid.counted
  have empty : sender.stream.bts = [] :=
    List.isEmpty_iff.mp (Bool.and_eq_true_iff.mp eof).2
  rw [if_neg (fun empty => sent (ledger.eq_nil_iff.mp empty))] at count
  rw [empty, List.length_nil] at counted
  omega

/-- The summary in terms of the two sequence numbers and the FIN. -/
inductive Stage (sender : TCPSender) : TCPSenderStateSummary → Prop where
  | closed (unsent : sender.nextSeqno = 0) : Stage sender .closed
  | synSent (sent : sender.nextSeqno ≠ 0) (unacked : sender.ackS = 0) : Stage sender .synSent
  | synAcked (sent : sender.nextSeqno ≠ 0) (acked : sender.ackS ≠ 0)
      (unfinished : sender.finSend = false) : Stage sender .synAcked
  | finSent (sent : sender.nextSeqno ≠ 0) (acked : sender.ackS ≠ 0)
      (finished : sender.finSend = true) (behind : sender.ackS < sender.nextSeqno) :
      Stage sender .finSent
  | finAcked (sent : sender.nextSeqno ≠ 0) (acked : sender.ackS ≠ 0)
      (finished : sender.finSend = true) (level : ¬sender.ackS < sender.nextSeqno) :
      Stage sender .finAcked

theorem Closing.stage (closing : Closing sender) (ledger : Ledger sender accepted created)
    (bound : sender.ackS ≤ sender.nextSeqno) (windowed : Windowed sender) :
    Stage sender sender.stateSummary := by
  have flight := windowed.bytesInFlight_eq bound
  have noError : sender.streamIn.error = false := closing.error
  unfold stateSummary nextSeqnoAbsolute
  rw [noError, if_neg Bool.false_ne_true]
  by_cases unsent : sender.nextSeqno = 0
  · rw [if_pos unsent]
    exact .closed unsent
  rw [if_neg unsent]
  by_cases unacked : sender.ackS = 0
  · rw [if_pos (by omega)]
    exact .synSent unsent unacked
  rw [if_neg (by omega)]
  cases finished : sender.finSend with
  | false =>
      cases eof : sender.streamIn.eof with
      | false => exact .synAcked unsent unacked finished
      | true =>
          have short := ledger.nextSeqno_of_eof unsent eof
          rw [finished, if_neg Bool.false_ne_true] at short
          rw [if_neg (by simp), if_pos (by omega)]
          exact .synAcked unsent unacked finished
  | true =>
      have eof : sender.streamIn.eof = true := closing.eof finished
      have whole := ledger.nextSeqno_of_eof unsent eof
      rw [finished, if_pos rfl] at whole
      rw [eof, if_neg (by simp), if_neg (by omega)]
      by_cases behind : sender.ackS < sender.nextSeqno
      · rw [if_pos (by omega)]
        exact .finSent unsent unacked finished behind
      · rw [if_neg (by omega)]
        exact .finAcked unsent unacked finished behind

theorem Ledger.fin_acked_iff (ledger : Ledger sender accepted created)
    (acked : sender.ackS ≤ sender.nextSeqno) :
    (∃ tile ∈ tiles created, tile.2.header.fin = true ∧
        tile.1 + tile.2.lengthInSequenceSpace ≤ sender.ackS) ↔
      sender.finSend = true ∧ sender.ackS = sender.nextSeqno := by
  constructor
  · rintro ⟨tile, placed, isFin, covered⟩
    obtain ⟨finished, last⟩ := (ledger.fin tile placed).mp isFin
    exact ⟨finished, by omega⟩
  · rintro ⟨finished, all⟩
    obtain ⟨seg, member, isFin⟩ := ledger.fin_iff.mpr finished
    obtain ⟨start, placed⟩ := exists_tile member
    refine ⟨_, placed, isFin, ?_⟩
    rw [all]
    exact ledger.bounds placed

end

/-- Every summary says what has been created and acknowledged so far. -/
structure TellsTruth (trace : Trace) : Prop where
  closed : trace.sender.stateSummary = .closed ↔
    ¬ ∃ seg ∈ created trace.emitted, seg.header.syn = true
  synSent : trace.sender.stateSummary = .synSent ↔
    (∃ seg ∈ created trace.emitted, seg.header.syn = true) ∧ trace.sender.ackS = 0
  synAcked : trace.sender.stateSummary = .synAcked ↔
    0 < trace.sender.ackS ∧ ¬ ∃ seg ∈ created trace.emitted, seg.header.fin = true
  finSent : trace.sender.stateSummary = .finSent ↔
    (∃ seg ∈ created trace.emitted, seg.header.fin = true) ∧ 0 < trace.sender.ackS ∧
      trace.sender.ackS < trace.sender.nextSeqno
  finAcked : trace.sender.stateSummary = .finAcked ↔
    ∃ tile ∈ tiles (created trace.emitted), tile.2.header.fin = true ∧
      tile.1 + tile.2.lengthInSequenceSpace ≤ trace.sender.ackS

theorem sender_summary_tells_truth {capacity : Nat} {retxTimeout : UInt16}
    {isn : WrappingInt32} {trace : Trace}
    (reached : (orderlyTraces capacity retxTimeout isn).Reachable trace) :
    TellsTruth trace := by
  obtain ⟨recorded, closing⟩ := orderlyTraces_closing reached
  have ledger := recorded.ledger
  have bound := recorded.stock.acked
  have syn : (∃ seg ∈ created trace.emitted, seg.header.syn = true) ↔
      trace.sender.nextSeqno ≠ 0 :=
    ledger.syn_iff.trans (not_congr ledger.eq_nil_iff)
  have stage := closing.stage ledger bound (traces_windowed reached.of_restrict)
  refine ⟨?_, ?_, ?_, ?_, ?_⟩
  all_goals generalize trace.sender.stateSummary = summary at stage ⊢
  · rw [syn, not_not]
    cases stage with
    | closed unsent => exact iff_of_true rfl unsent
    | synSent sent | synAcked sent | finSent sent | finAcked sent =>
        exact iff_of_false (by simp) sent
  · rw [syn]
    cases stage with
    | closed unsent => exact iff_of_false (by simp) fun told => told.1 unsent
    | synSent sent unacked => exact iff_of_true rfl ⟨sent, unacked⟩
    | synAcked _ acked | finSent _ acked | finAcked _ acked =>
        exact iff_of_false (by simp) fun told => acked told.2
  · rw [ledger.fin_iff]
    cases stage with
    | closed | synSent => exact iff_of_false (by simp) fun told => by omega
    | synAcked _ acked unfinished =>
        exact iff_of_true rfl ⟨Nat.pos_of_ne_zero acked, by simp [unfinished]⟩
    | finSent _ _ finished | finAcked _ _ finished =>
        exact iff_of_false (by simp) fun told => told.2 finished
  · rw [ledger.fin_iff]
    cases stage with
    | closed | synSent | finAcked => exact iff_of_false (by simp) fun told => by omega
    | synAcked _ _ unfinished =>
        exact iff_of_false (by simp) fun told => by simp [unfinished] at told
    | finSent _ acked finished behind =>
        exact iff_of_true rfl ⟨finished, Nat.pos_of_ne_zero acked, behind⟩
  · rw [ledger.fin_acked_iff bound]
    cases stage with
    | closed unsent =>
        have count := ledger.count
        refine iff_of_false (by simp) fun told => ?_
        rw [told.1, if_pos rfl] at count
        omega
    | synSent | finSent => exact iff_of_false (by simp) fun told => by omega
    | synAcked _ _ unfinished =>
        exact iff_of_false (by simp) fun told => by simp [unfinished] at told
    | finAcked _ _ finished level => exact iff_of_true rfl ⟨finished, by omega⟩

theorem sender_summary_tells_truth_fin :
    TellsTruth ((orderlyTraces 10 1000 ⟨7⟩).run (orderlyTraces 10 1000 ⟨7⟩).init
      [.fillWindow, .write [1, 2], .ackReceived ⟨8⟩ 10, .endInput, .fillWindow]) :=
  sender_summary_tells_truth (Machine.reachable_run _ _ (by decide))

end Sponge.TCPSender
