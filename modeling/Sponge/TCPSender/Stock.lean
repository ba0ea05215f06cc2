import Sponge.TCPSender.Ledger

namespace Sponge.TCPSender

open Tiling (extent place)

/-! The segments kept for retransmission. -/

/-- A created segment as it is stored: under the number just past its end. -/
def keyed (tile : Nat × TCPSegment) : Nat × TCPSegment :=
  (tile.1 + tile.2.lengthInSequenceSpace, tile.2)

/-- The map holds exactly the created segments that end past the acknowledged
number, and the timer runs exactly while there is something in flight. -/
structure Stock (sender : TCPSender) (created : List TCPSegment) : Prop where
  acked : sender.ackS ≤ sender.nextSeqno
  stored : sender.segmentsNoack.entries =
    ((tiles created).map keyed).filter (fun entry => decide (sender.ackS < entry.1))
  timer : sender.start = decide (sender.ackS < sender.nextSeqno)

theorem stock_new (capacity : Nat) (retxTimeout : UInt16) (isn : WrappingInt32) :
    Stock (new capacity retxTimeout isn) [] :=
  ⟨Nat.le_refl _, rfl, rfl⟩

section

variable (sender : TCPSender) (endSeq : Nat)

@[simp] theorem turn_ackS : (sender.turn endSeq).ackS = sender.ackS := by
  unfold turn transmit
  rw [makeSegment_eq]

@[simp] theorem turn_window : (sender.turn endSeq).window = sender.window := by
  unfold turn transmit
  rw [makeSegment_eq]

@[simp] theorem turn_segmentsOut : (sender.turn endSeq).segmentsOut =
    sender.segmentsOut ++ [(sender.makeSegment endSeq).1] := by
  unfold turn transmit
  rw [makeSegment_eq]

@[simp] theorem turn_segmentsNoack : (sender.turn endSeq).segmentsNoack =
    sender.segmentsNoack.insert
      (sender.nextSeqno + (sender.makeSegment endSeq).1.lengthInSequenceSpace)
      (sender.makeSegment endSeq).1 := by
  unfold turn transmit
  rw [makeSegment_eq]

@[simp] theorem turn_start : (sender.turn endSeq).start = true := by
  unfold turn transmit
  rw [makeSegment_eq]

end

section

variable {sender other : TCPSender} {accepted : List Byte} {created : List TCPSegment}

theorem Stock.of_same (stock : Stock sender created) (ackS : other.ackS = sender.ackS)
    (nextSeqno : other.nextSeqno = sender.nextSeqno)
    (segmentsNoack : other.segmentsNoack = sender.segmentsNoack)
    (start : other.start = sender.start) : Stock other created := by
  obtain ⟨acked, stored, timer⟩ := stock
  refine ⟨?_, ?_, ?_⟩ <;> simp only [ackS, nextSeqno, segmentsNoack, start] <;> assumption

theorem Stock.keys_le (stock : Stock sender created)
    (ledger : Ledger sender accepted created) :
    ∀ entry ∈ sender.segmentsNoack.entries, entry.1 ≤ sender.nextSeqno := by
  intro entry member
  rw [stock.stored] at member
  obtain ⟨tile, placed, rfl⟩ := List.mem_map.mp (List.mem_of_mem_filter member)
  exact ledger.bounds placed

theorem Stock.mem_created (stock : Stock sender created) {entry : Nat × TCPSegment}
    (member : entry ∈ sender.segmentsNoack.entries) :
    ∃ tile ∈ tiles created, keyed tile = entry := by
  rw [stock.stored] at member
  exact List.mem_map.mp (List.mem_of_mem_filter member)

theorem Stock.turn {endSeq : Nat} (stock : Stock sender created)
    (ledger : Ledger sender accepted created)
    (sends : 0 < (sender.makeSegment endSeq).1.lengthInSequenceSpace) :
    Stock (sender.turn endSeq) (created ++ [(sender.makeSegment endSeq).1]) := by
  have acked := stock.acked
  refine ⟨?_, ?_, ?_⟩
  · rw [turn_ackS, turn_nextSeqno]
    omega
  · have below : ∀ entry ∈ sender.segmentsNoack.entries, entry.1 <
        sender.nextSeqno + (sender.makeSegment endSeq).1.lengthInSequenceSpace := by
      intro entry member
      have bound := stock.keys_le ledger entry member
      omega
    have kept : sender.ackS <
        sender.nextSeqno + (sender.makeSegment endSeq).1.lengthInSequenceSpace := by
      omega
    rw [turn_segmentsNoack, OrderedMap.entries_insert_last _ _ below, turn_ackS,
      stock.stored, tiles_append_singleton, ledger.total]
    simp [keyed, kept]
  · rw [turn_start, turn_ackS, turn_nextSeqno]
    simp
    omega

end

/-! ## The whole loop -/

/-- What every sending turn keeps, the loop keeps; it appends to `segments_out`
what the turns made. -/
theorem fillLoop_invariant (Holds : TCPSender → List TCPSegment → Prop) {endSeq : Nat}
    (step : ∀ sender segs, Holds sender segs → sender.nextSeqno < endSeq →
      0 < (sender.makeSegment endSeq).1.lengthInSequenceSpace →
      Holds (sender.turn endSeq) (segs ++ [(sender.makeSegment endSeq).1]))
    (fuel : Nat) (sender : TCPSender) (segs : List TCPSegment) (base : Holds sender segs) :
    ∃ new, (fillLoop fuel endSeq sender).segmentsOut = sender.segmentsOut ++ new ∧
      Holds (fillLoop fuel endSeq sender) (segs ++ new) := by
  have stays : ∃ new, sender.segmentsOut = sender.segmentsOut ++ new ∧
      Holds sender (segs ++ new) := ⟨[], by simp, by simpa using base⟩
  induction fuel generalizing sender segs with
  | zero => exact stays
  | succ fuel induction =>
      unfold fillLoop
      split
      next running =>
        dsimp only
        split
        next sends =>
          have advanced := step sender segs base running sends
          obtain ⟨new, out, holds⟩ := induction _ _ advanced
            ⟨[], by simp, by simpa using advanced⟩
          refine ⟨[(sender.makeSegment endSeq).1] ++ new, ?_, ?_⟩
          · change (fillLoop fuel endSeq (sender.turn endSeq)).segmentsOut = _
            rw [out, turn_segmentsOut, List.append_assoc]
          · rw [← List.append_assoc]
            exact holds
        next idle =>
          rw [sender.makeSegment_idle endSeq running (by omega)]
          exact stays
      next => exact stays

theorem fillWindow_invariant (Holds : TCPSender → Prop) {sender : TCPSender}
    (step : ∀ other, Holds other → other.nextSeqno < sender.ackS + sender.window.toNat →
      0 < (other.makeSegment
        (sender.ackS + sender.window.toNat)).1.lengthInSequenceSpace →
      Holds (other.turn (sender.ackS + sender.window.toNat)))
    (base : Holds sender) : Holds sender.fillWindow := by
  unfold fillWindow
  split
  · exact base
  · obtain ⟨_, _, holds⟩ := fillLoop_invariant (fun other _ => Holds other)
      (fun other _ => step other) (sender.ackS + sender.window.toNat - sender.nextSeqno)
      sender [] base
    exact holds

section

variable {sender : TCPSender} {accepted : List Byte} {created : List TCPSegment}

theorem Ledger.unfinished_of_sends {endSeq : Nat} (ledger : Ledger sender accepted created)
    (closing : sender.finSend = true → sender.stream.eof = true)
    (sends : 0 < (sender.makeSegment endSeq).1.lengthInSequenceSpace) :
    sender.finSend = false := by
  by_contra finished
  rw [Bool.not_eq_false] at finished
  have ended := closing finished
  have sent : sender.nextSeqno ≠ 0 := by
    have count := ledger.count
    rw [finished, if_pos rfl] at count
    omega
  have empty : sender.stream.bts = [] := by
    simpa [ByteStream.eof, ByteStream.bufferEmpty] using (Bool.and_eq_true_iff.mp ended).2
  rw [makeSegment_length, empty] at sends
  simp [closes, finished, sent] at sends

theorem Ledger.turn_closing {endSeq : Nat} (ledger : Ledger sender accepted created)
    (closing : sender.finSend = true → sender.stream.eof = true)
    (sends : 0 < (sender.makeSegment endSeq).1.lengthInSequenceSpace) :
    (sender.turn endSeq).finSend = true → (sender.turn endSeq).stream.eof = true := by
  rw [turn_finSend, turn_stream, ledger.unfinished_of_sends closing sends, Bool.false_or,
    closes]
  intro closes
  simp only [Bool.and_eq_true] at closes
  exact closes.1.2

theorem fillWindow_spec (ledger : Ledger sender accepted created)
    (stock : Stock sender created) :
    ∃ new, sender.fillWindow.segmentsOut = sender.segmentsOut ++ new ∧
      Ledger sender.fillWindow accepted (created ++ new) ∧
      Stock sender.fillWindow (created ++ new) ∧
      ((sender.finSend = true ∧ new = [] ∧ sender.fillWindow = sender) ∨
        (sender.finSend = false ∧ (sender.fillWindow.finSend = true →
          sender.fillWindow.stream.eof = true))) := by
  unfold fillWindow
  split
  next finished =>
    exact ⟨[], by simp, by simpa using ledger, by simpa using stock,
      Or.inl ⟨finished, rfl, rfl⟩⟩
  next unfinished =>
    obtain ⟨new, out, ledger, stock, closing⟩ := fillLoop_invariant
      (fun sender segs => Ledger sender accepted segs ∧ Stock sender segs ∧
        (sender.finSend = true → sender.stream.eof = true))
      (fun _ _ ⟨ledger, stock, closing⟩ _ sends =>
        ⟨ledger.turn (ledger.unfinished_of_sends closing sends) sends,
          stock.turn ledger sends, ledger.turn_closing closing sends⟩)
      (sender.ackS + sender.window.toNat - sender.nextSeqno) sender created
      ⟨ledger, stock, fun finished => absurd finished unfinished⟩
    exact ⟨new, out, ledger, stock,
      Or.inr ⟨Bool.eq_false_of_not_eq_true unfinished, closing⟩⟩

end

theorem fillWindow_frame (sender : TCPSender) :
    sender.fillWindow.isn = sender.isn ∧ sender.fillWindow.ackS = sender.ackS ∧
      sender.fillWindow.window = sender.window ∧
      sender.fillWindow.stream.endFlag = sender.stream.endFlag := by
  refine fillWindow_invariant
    (fun other => other.isn = sender.isn ∧ other.ackS = sender.ackS ∧
      other.window = sender.window ∧ other.stream.endFlag = sender.stream.endFlag) ?_
    ⟨rfl, rfl, rfl, rfl⟩
  intro other frame _ _
  simpa [ByteStream.read_eq] using frame

/-! ## Acknowledgements and timeouts -/

theorem ackReceived_ignored {sender : TCPSender} {ackno : WrappingInt32}
    (impossible : sender.nextSeqno < unwrap ackno sender.isn sender.nextSeqno)
    (windowSize : UInt16) : sender.ackReceived ackno windowSize = sender :=
  if_pos impossible

/-- An acknowledgement that is not impossible: everything it changes. -/
theorem ackReceived_eq {sender : TCPSender} {ackno : WrappingInt32} {newAck : Nat}
    (unwrapped : unwrap ackno sender.isn sender.nextSeqno = newAck)
    (possible : newAck ≤ sender.nextSeqno) (windowSize : UInt16) :
    sender.ackReceived ackno windowSize =
      { sender with
        ackS := max sender.ackS newAck
        segmentsNoack := if sender.ackS < newAck then
            sender.segmentsNoack.eraseWhere (fun key => decide (key ≤ newAck))
          else sender.segmentsNoack
        rto := if sender.ackS < newAck then sender.initialRetransmissionTimeout
          else sender.rto
        retransnum := if sender.ackS < newAck then 0 else sender.retransnum
        window := if windowSize ≠ 0 then windowSize else 1
        windowZero := if windowSize ≠ 0 then sender.windowZero else true
        start := if max sender.ackS newAck = sender.nextSeqno then false
          else sender.start } := by
  unfold ackReceived
  rw [unwrapped]
  dsimp only
  rw [if_neg (Nat.not_lt.mpr possible)]
  by_cases advances : sender.ackS < newAck
  · simp only [if_pos advances, Nat.max_eq_right (Nat.le_of_lt advances)]
    by_cases zero : windowSize = 0 <;> by_cases done : newAck = sender.nextSeqno <;>
      simp [zero, done]
  · simp only [if_neg advances, Nat.max_eq_left (Nat.not_lt.mp advances)]
    by_cases zero : windowSize = 0 <;> by_cases done : sender.ackS = sender.nextSeqno <;>
      simp [zero, done]

theorem ackReceived_cases (sender : TCPSender) (ackno : WrappingInt32)
    (windowSize : UInt16) :
    sender.ackReceived ackno windowSize = sender ∨
      ∃ newAck, unwrap ackno sender.isn sender.nextSeqno = newAck ∧
        newAck ≤ sender.nextSeqno := by
  by_cases impossible : sender.nextSeqno < unwrap ackno sender.isn sender.nextSeqno
  · exact Or.inl (ackReceived_ignored impossible windowSize)
  · exact Or.inr ⟨_, rfl, Nat.not_lt.mp impossible⟩

section

variable {sender : TCPSender} {accepted : List Byte} {created : List TCPSegment}

theorem Stock.ackReceived (stock : Stock sender created) (ackno : WrappingInt32)
    (windowSize : UInt16) : Stock (sender.ackReceived ackno windowSize) created := by
  rcases sender.ackReceived_cases ackno windowSize with same | ⟨newAck, unwrapped, possible⟩
  · rwa [same]
  · obtain ⟨acked, stored, timer⟩ := stock
    rw [ackReceived_eq unwrapped possible]
    refine ⟨by dsimp only; omega, ?_, ?_⟩
    · dsimp only
      split
      next advances =>
        rw [OrderedMap.entries_eraseWhere, stored, List.filter_filter]
        apply List.filter_congr
        intro entry _
        rw [← decide_not, ← Bool.decide_and]
        apply decide_eq_decide.mpr
        omega
      next old =>
        rw [stored, Nat.max_eq_left (Nat.not_lt.mp old)]
    · dsimp only
      rw [timer]
      split
      next done => simp [done]
      next behind =>
        apply decide_eq_decide.mpr
        omega

theorem ackReceived_frame (sender : TCPSender) (ackno : WrappingInt32)
    (windowSize : UInt16) :
    (sender.ackReceived ackno windowSize).isn = sender.isn ∧
      (sender.ackReceived ackno windowSize).stream = sender.stream ∧
      (sender.ackReceived ackno windowSize).nextSeqno = sender.nextSeqno ∧
      (sender.ackReceived ackno windowSize).finSend = sender.finSend ∧
      (sender.ackReceived ackno windowSize).segmentsOut = sender.segmentsOut := by
  rcases sender.ackReceived_cases ackno windowSize with same | ⟨newAck, unwrapped, possible⟩
  · rw [same]
    exact ⟨rfl, rfl, rfl, rfl, rfl⟩
  · rw [ackReceived_eq unwrapped possible]
    exact ⟨rfl, rfl, rfl, rfl, rfl⟩

def doubled (sender : TCPSender) : UInt32 :=
  if sender.retransnum = 0 then sender.initialRetransmissionTimeout * 2
  else sender.rtoBase * 2

def retransmit (sender : TCPSender) (seg : TCPSegment) : TCPSender :=
  { sender with
    rtoBase := sender.doubled
    rto := if sender.windowZero then sender.initialRetransmissionTimeout else sender.doubled
    retransnum := sender.retransnum + 1
    segmentsOut := sender.segmentsOut ++ [seg] }

theorem tick_stopped {sender : TCPSender} {ms : Nat} (stopped : sender.start = false) :
    sender.tick ms = sender :=
  if_pos (by rw [stopped]; rfl)

theorem tick_waiting {sender : TCPSender} {ms : Nat} (running : sender.start = true)
    (waiting : ms < sender.rto.toNat) :
    sender.tick ms = { sender with rto := sender.rto - UInt32.ofNat ms } := by
  unfold tick
  rw [running]
  exact if_neg (Nat.not_le.mpr waiting)

theorem tick_expired {sender : TCPSender} {ms : Nat} {entry : Nat × TCPSegment}
    (running : sender.start = true) (expired : sender.rto.toNat ≤ ms)
    (oldest : sender.segmentsNoack.begin? = some entry) :
    sender.tick ms = sender.retransmit entry.2 := by
  unfold tick
  simp [running, expired, oldest, retransmit, doubled]

theorem tick_cases (sender : TCPSender) (ms : Nat) :
    ∃ new rto rtoBase retransnum,
      sender.tick ms =
        { sender with
          segmentsOut := sender.segmentsOut ++ new
          rto := rto
          rtoBase := rtoBase
          retransnum := retransnum } ∧
      (new = [] ∨ ∃ entry, sender.segmentsNoack.begin? = some entry ∧ new = [entry.2]) := by
  by_cases running : sender.start = true
  · by_cases expired : sender.rto.toNat ≤ ms
    · cases oldest : sender.segmentsNoack.begin? with
      | none =>
          refine ⟨[], if sender.windowZero then sender.initialRetransmissionTimeout
            else sender.doubled, sender.doubled, sender.retransnum + 1, ?_, Or.inl rfl⟩
          unfold tick
          simp [running, expired, oldest, doubled]
      | some entry =>
          exact ⟨[entry.2], _, _, _, tick_expired running expired oldest,
            Or.inr ⟨entry, rfl, rfl⟩⟩
    · refine ⟨[], sender.rto - UInt32.ofNat ms, sender.rtoBase, sender.retransnum, ?_,
        Or.inl rfl⟩
      rw [tick_waiting running (Nat.not_le.mp expired), List.append_nil]
  · refine ⟨[], sender.rto, sender.rtoBase, sender.retransnum, ?_, Or.inl rfl⟩
    rw [tick_stopped (Bool.eq_false_of_not_eq_true running), List.append_nil]

end

end Sponge.TCPSender
