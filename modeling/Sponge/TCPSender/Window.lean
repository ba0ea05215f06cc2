import Sponge.TCPSender.Exhaustion

namespace Sponge.TCPSender

open Tiling (extent place)

/-! How the segments of one `fill_window` share out the window. -/

def newSegments (sender : TCPSender) : List TCPSegment :=
  sender.fillWindow.segmentsOut.drop sender.segmentsOut.length

def windowEnd (sender : TCPSender) : Nat :=
  sender.ackS + sender.window.toNat

/-- What the new segment that follows `front` carries. -/
structure Loaded (sender : TCPSender) (front : List TCPSegment) (seg : TCPSegment) :
    Prop where
  inside : sender.nextSeqno + extent TCPSegment.lengthInSequenceSpace front <
    sender.windowEnd
  syn : seg.header.syn = true ↔
    sender.nextSeqno + extent TCPSegment.lengthInSequenceSpace front = 0
  payload : seg.payload.str.length =
    min 1452 (min
      (sender.windowEnd -
        (sender.nextSeqno + extent TCPSegment.lengthInSequenceSpace front))
      (sender.streamIn.bufferSize - (payloads front).length))
  fin : seg.header.fin = true ↔ sender.streamIn.inputEnded = true ∧
    (payloads front).length + seg.payload.str.length = sender.streamIn.bufferSize ∧
    sender.nextSeqno + extent TCPSegment.lengthInSequenceSpace front +
      (if seg.header.syn then 1 else 0) + seg.payload.str.length < sender.windowEnd

section

variable (sender : TCPSender) (endSeq : Nat)

theorem dataSize_eq : sender.dataSize endSeq = min 1452 (endSeq - sender.nextSeqno) := by
  unfold dataSize TCPConfig.maxPayloadSize
  dsimp only
  split <;> omega

theorem loadSegment_length :
    (sender.loadSegment endSeq).1.lengthInSequenceSpace =
      min (sender.dataSize endSeq) sender.stream.bts.length +
        (if sender.nextSeqno = 0 then 1 else 0) := by
  simp [loadSegment, TCPSegment.lengthInSequenceSpace, ByteStream.read_eq]

theorem closes_iff : sender.closes endSeq = true ↔
    sender.finSend = false ∧ sender.stream.endFlag = true ∧
      sender.stream.bts.length ≤ sender.dataSize endSeq ∧
      sender.nextSeqno + (min (sender.dataSize endSeq) sender.stream.bts.length +
        (if sender.nextSeqno = 0 then 1 else 0)) < endSeq := by
  unfold closes
  rw [loadSegment_length, ByteStream.read_eq]
  simp [ByteStream.eof, ByteStream.bufferEmpty, and_assoc]

end

structure Turned (sender other : TCPSender) (segs : List TCPSegment) : Prop where
  nextSeqno : other.nextSeqno =
    sender.nextSeqno + extent TCPSegment.lengthInSequenceSpace segs
  bytes : payloads segs ++ other.stream.bts = sender.stream.bts
  endFlag : other.stream.endFlag = sender.stream.endFlag
  loaded : ∀ front seg back, segs = front ++ seg :: back → Loaded sender front seg

section

variable {sender other : TCPSender} {accepted : List Byte}
  {created segs : List TCPSegment}

theorem turned_refl (sender : TCPSender) : Turned sender sender [] where
  nextSeqno := rfl
  bytes := rfl
  endFlag := rfl
  loaded := fun front _ _ split => by simp at split

theorem Turned.makes (turned : Turned sender other segs)
    (running : other.nextSeqno < sender.windowEnd) (unfinished : other.finSend = false) :
    Loaded sender segs (other.makeSegment sender.windowEnd).1 := by
  have closes := other.closes_iff sender.windowEnd
  have bytes := congrArg List.length turned.bytes
  have data := other.dataSize_eq sender.windowEnd
  rw [List.length_append] at bytes
  have payload : (other.makeSegment sender.windowEnd).1.payload.str.length =
      min (other.dataSize sender.windowEnd) other.stream.bts.length := by
    rw [makeSegment_payload, List.length_take]
  have syn : (other.makeSegment sender.windowEnd).1.header.syn =
      decide (other.nextSeqno = 0) := by
    rw [makeSegment_eq]
    rfl
  have fin : (other.makeSegment sender.windowEnd).1.header.fin =
      other.closes sender.windowEnd := by
    rw [makeSegment_eq]
  refine ⟨?_, ?_, ?_, ?_⟩
  · rw [← turned.nextSeqno]
    exact running
  · rw [← turned.nextSeqno, syn, decide_eq_true_eq]
  · rw [payload, ← turned.nextSeqno]
    change _ = min 1452 (min _ (sender.stream.bts.length - _))
    omega
  · rw [fin, closes, payload, syn, ← turned.nextSeqno]
    change _ ↔ sender.stream.endFlag = true ∧ _ = sender.stream.bts.length ∧ _
    rw [← turned.endFlag]
    simp only [unfinished, decide_eq_true_eq, true_and]
    apply and_congr_right
    intro _
    constructor
    · rintro ⟨all, room⟩
      omega
    · rintro ⟨all, room⟩
      omega

theorem Turned.turn (turned : Turned sender other segs)
    (running : other.nextSeqno < sender.windowEnd) (unfinished : other.finSend = false) :
    Turned sender (other.turn sender.windowEnd)
      (segs ++ [(other.makeSegment sender.windowEnd).1]) := by
  have made := turned.makes running unfinished
  refine ⟨?_, ?_, ?_, ?_⟩
  · rw [turn_nextSeqno, turned.nextSeqno, Tiling.extent_append, Tiling.extent_cons,
      Tiling.extent_nil, Nat.add_zero, Nat.add_assoc]
  · rw [payloads_append_singleton, turn_stream, makeSegment_payload, ByteStream.read_eq,
      List.append_assoc, List.take_append_drop]
    exact turned.bytes
  · rw [turn_stream, ByteStream.read_eq]
    exact turned.endFlag
  · intro front seg back split
    rcases List.eq_nil_or_concat' back with rfl | ⟨back, last, rfl⟩
    · obtain ⟨rfl, same⟩ := List.append_inj' split rfl
      rw [← List.singleton_inj.mp same]
      exact made
    · rw [← List.cons_append, ← List.append_assoc] at split
      exact turned.loaded front seg back (List.append_inj' split rfl).1

theorem fillWindow_of_unfinished (unfinished : sender.finSend = false) :
    sender.fillWindow =
      fillLoop (sender.windowEnd - sender.nextSeqno) sender.windowEnd sender := by
  unfold fillWindow
  rw [unfinished]
  rfl

theorem newSegments_eq {new : List TCPSegment}
    (out : sender.fillWindow.segmentsOut = sender.segmentsOut ++ new) :
    sender.newSegments = new := by
  unfold newSegments
  rw [out, List.drop_left]

theorem fillWindow_loaded (ledger : Ledger sender accepted created)
    {front back : List TCPSegment} {seg : TCPSegment}
    (split : sender.newSegments = front ++ seg :: back) : Loaded sender front seg := by
  cases finished : sender.finSend with
  | true =>
      have idle : sender.fillWindow = sender := if_pos finished
      unfold newSegments at split
      rw [idle, List.drop_length] at split
      simp at split
  | false =>
      obtain ⟨new, out, _, _, turned⟩ := fillLoop_invariant
        (fun other segs => Ledger other accepted (created ++ segs) ∧
          (other.finSend = true → other.stream.eof = true) ∧ Turned sender other segs)
        (fun other segs ⟨ledger, closing, turned⟩ running sends => by
          have unfinished := ledger.unfinished_of_sends closing sends
          refine ⟨?_, ledger.turn_closing closing sends, turned.turn running unfinished⟩
          rw [← List.append_assoc]
          exact ledger.turn unfinished sends)
        (sender.windowEnd - sender.nextSeqno) sender []
        ⟨by simpa using ledger, by simp [finished], turned_refl sender⟩
      rw [← fillWindow_of_unfinished finished] at out
      rw [newSegments_eq out] at split
      exact turned.loaded front seg back split

end

/-! ## The loop and its fuel -/

/-- Fuel beyond the room before `endSeq` is never used. -/
theorem fillLoop_fuel {endSeq : Nat} (fuel spare : Nat) (sender : TCPSender)
    (enough : endSeq - sender.nextSeqno ≤ fuel) :
    fillLoop (fuel + spare) endSeq sender = fillLoop fuel endSeq sender := by
  induction fuel generalizing sender with
  | zero =>
      have full : ¬ sender.nextSeqno < endSeq := by omega
      cases spare with
      | zero => rfl
      | succ spare =>
          rw [Nat.zero_add, fillLoop, fillLoop, if_neg full]
  | succ fuel induction =>
      rw [Nat.add_right_comm]
      unfold fillLoop
      split
      next running =>
        dsimp only
        split
        next sends =>
          have grows := turn_nextSeqno_lt sends
          exact induction (sender.turn endSeq) (by omega)
        next => rfl
      next => rfl

theorem fillLoop_idle {sender : TCPSender} (fuel endSeq : Nat) (sent : sender.nextSeqno ≠ 0)
    (empty : sender.stream.bts = []) (opened : sender.stream.endFlag = false) :
    fillLoop fuel endSeq sender = sender := by
  cases fuel with
  | zero => rfl
  | succ fuel =>
      unfold fillLoop
      split
      next running =>
        have noFin : sender.closes endSeq = false := by
          simp [closes, ByteStream.read_of_empty empty, ByteStream.eof, opened]
        have idle : (sender.makeSegment endSeq).1.lengthInSequenceSpace = 0 := by
          rw [makeSegment_length, noFin, empty]
          simp [sent]
        dsimp only
        rw [idle, if_neg (Nat.lt_irrefl 0)]
        exact sender.makeSegment_idle endSeq running idle
      next => rfl

theorem fillWindow_settled {sender : TCPSender}
    (settled : sender.finSend = true ∨ sender.windowEnd ≤ sender.nextSeqno ∨
      (sender.nextSeqno ≠ 0 ∧ sender.stream.bts = [] ∧ sender.stream.endFlag = false)) :
    sender.fillWindow = sender := by
  cases finished : sender.finSend with
  | true => exact if_pos finished
  | false =>
      rw [fillWindow_of_unfinished finished]
      rcases settled with sent | full | ⟨sent, empty, opened⟩
      · rw [finished] at sent
        cases sent
      · rw [Nat.sub_eq_zero_of_le full, fillLoop]
      · exact fillLoop_idle _ _ sent empty opened

theorem windowEnd_fillWindow (sender : TCPSender) :
    sender.fillWindow.windowEnd = sender.windowEnd := by
  obtain ⟨_, ackS, window, _⟩ := fillWindow_frame sender
  unfold windowEnd
  rw [ackS, window]

theorem fillWindow_fillWindow (sender : TCPSender) :
    sender.fillWindow.fillWindow = sender.fillWindow := by
  apply fillWindow_settled
  rw [windowEnd_fillWindow]
  exact sender.fillWindow_exhausts

/-- Only the SYN can push a segment over the edge of the window: its slot is not
taken off the payload. -/
theorem Loaded.fits_iff {sender : TCPSender} {front : List TCPSegment} {seg : TCPSegment}
    (loaded : Loaded sender front seg) :
    sender.nextSeqno + extent TCPSegment.lengthInSequenceSpace front +
        seg.lengthInSequenceSpace ≤ sender.windowEnd ↔
      (sender.nextSeqno + extent TCPSegment.lengthInSequenceSpace front = 0 →
        sender.streamIn.bufferSize - (payloads front).length < sender.windowEnd ∨
          1452 < sender.windowEnd) := by
  obtain ⟨inside, syn, payload, fin⟩ := loaded
  unfold TCPSegment.lengthInSequenceSpace at *
  cases isSyn : seg.header.syn <;> cases isFin : seg.header.fin <;>
    simp only [isSyn, isFin, if_true, if_false, true_iff, Bool.false_eq_true, false_iff]
      at * <;> omega

/-! ## Window and numbers in flight -/

theorem turn_nextSeqno_le {sender : TCPSender} {endSeq : Nat}
    (running : sender.nextSeqno < endSeq) :
    (sender.turn endSeq).nextSeqno ≤ endSeq + 1 := by
  have data := sender.dataSize_eq endSeq
  rw [turn_nextSeqno, makeSegment_length]
  by_cases closing : sender.closes endSeq = true
  · obtain ⟨_, _, _, room⟩ := (sender.closes_iff endSeq).mp closing
    rw [if_pos closing]
    omega
  · rw [if_neg closing]
    split <;> omega

theorem fillWindow_nextSeqno_le (sender : TCPSender) :
    sender.fillWindow.nextSeqno ≤ max sender.nextSeqno (sender.windowEnd + 1) := by
  refine fillWindow_invariant
    (fun other => other.nextSeqno ≤ max sender.nextSeqno (sender.windowEnd + 1)) ?_
    (Nat.le_max_left _ _)
  intro other _ running _
  exact Nat.le_trans (turn_nextSeqno_le running) (Nat.le_max_right _ _)

theorem ackReceived_window {sender : TCPSender} {ackno : WrappingInt32}
    (possible : unwrap ackno sender.isn sender.nextSeqno ≤ sender.nextSeqno)
    (windowSize : UInt16) :
    (sender.ackReceived ackno windowSize).window.toNat = max 1 windowSize.toNat := by
  rw [ackReceived_eq rfl possible]
  dsimp only
  split
  next nonzero =>
    have positive : windowSize.toNat ≠ 0 := fun zero => nonzero (UInt16.toNat_inj.mp zero)
    omega
  next zero =>
    rw [not_not.mp zero]
    rfl

theorem nextSeqno_le_fillWindow (sender : TCPSender) :
    sender.nextSeqno ≤ sender.fillWindow.nextSeqno := by
  refine fillWindow_invariant (fun other => sender.nextSeqno ≤ other.nextSeqno) ?_
    (Nat.le_refl _)
  intro other grown _ sends
  exact Nat.le_trans grown (Nat.le_of_lt (turn_nextSeqno_lt sends))

theorem fillWindow_timer (sender : TCPSender) :
    sender.fillWindow.initialRetransmissionTimeout = sender.initialRetransmissionTimeout ∧
      sender.fillWindow.rto = sender.rto ∧ sender.fillWindow.rtoBase = sender.rtoBase ∧
      sender.fillWindow.retransnum = sender.retransnum ∧
      sender.fillWindow.windowZero = sender.windowZero := by
  refine fillWindow_invariant
    (fun other =>
      other.initialRetransmissionTimeout = sender.initialRetransmissionTimeout ∧
      other.rto = sender.rto ∧ other.rtoBase = sender.rtoBase ∧
      other.retransnum = sender.retransnum ∧ other.windowZero = sender.windowZero) ?_
    ⟨rfl, rfl, rfl, rfl, rfl⟩
  intro other frame _ _
  unfold turn transmit
  rw [makeSegment_eq]
  exact frame

/-- The window is never closed for good, and less than one turn of the number space is
in flight. -/
structure Windowed (sender : TCPSender) : Prop where
  positive : 0 < sender.window.toNat
  bounded : sender.nextSeqno ≤ sender.ackS + 2 ^ 16

theorem Windowed.perform {sender : TCPSender} (windowed : Windowed sender) (op : Op) :
    Windowed (sender.perform op) := by
  obtain ⟨positive, bounded⟩ := windowed
  cases op with
  | write data => exact ⟨positive, bounded⟩
  | endInput => exact ⟨positive, bounded⟩
  | fillWindow =>
      obtain ⟨_, ackS, window, _⟩ := fillWindow_frame sender
      have small := sender.window.toNat_lt
      have grown := sender.fillWindow_nextSeqno_le
      unfold windowEnd at grown
      constructor
      · change 0 < sender.fillWindow.window.toNat
        rwa [window]
      · change sender.fillWindow.nextSeqno ≤ sender.fillWindow.ackS + _
        rw [ackS]
        omega
  | ackReceived ackno windowSize =>
      change Windowed (sender.ackReceived ackno windowSize)
      rcases sender.ackReceived_cases ackno windowSize with
        same | ⟨newAck, rfl, possible⟩
      · rw [same]
        exact ⟨positive, bounded⟩
      · constructor
        · rw [ackReceived_window possible]
          omega
        · rw [ackReceived_eq rfl possible]
          dsimp only
          omega
  | tick ms =>
      obtain ⟨new, rto, rtoBase, retransnum, ticked, _⟩ := tick_cases sender ms
      change Windowed (sender.tick ms)
      rw [ticked]
      exact ⟨positive, bounded⟩
  | sendEmptySegment => exact ⟨positive, bounded⟩

theorem traces_windowed {capacity : Nat} {retxTimeout : UInt16} {isn : WrappingInt32}
    {trace : Trace} (reached : (traces capacity retxTimeout isn).Reachable trace) :
    Windowed trace.sender :=
  Machine.invariant (fun trace => Windowed trace.sender)
    (show Windowed (new capacity retxTimeout isn) from ⟨Nat.zero_lt_one, Nat.zero_le _⟩)
    (fun _ op _ windowed => windowed.perform op) reached

theorem Windowed.bytesInFlight_eq {sender : TCPSender} (windowed : Windowed sender)
    (acked : sender.ackS ≤ sender.nextSeqno) :
    sender.bytesInFlight = sender.nextSeqno - sender.ackS := by
  have bounded := windowed.bounded
  unfold bytesInFlight SizeT.sub
  omega

/-! ## What a call leaves behind -/

/-- `fill_window` returns, and on return there is nothing left that could be sent. -/
structure FillsWindow (trace : Trace) : Prop where
  terminates : trace.sender.finSend = true ∨
    ∀ fuel, trace.sender.windowEnd - trace.sender.nextSeqno ≤ fuel →
      fillLoop fuel trace.sender.windowEnd trace.sender = trace.sender.fillWindow
  exhausted :
    (∃ seg ∈ created (trace.next .fillWindow).emitted, seg.header.fin = true) ∨
      trace.sender.fillWindow.ackS + trace.sender.fillWindow.window.toNat ≤
        trace.sender.fillWindow.nextSeqno ∨
      (trace.sender.fillWindow.streamIn.bufferEmpty = true ∧
        trace.sender.fillWindow.streamIn.inputEnded = false)
  syn : ∃ seg ∈ created (trace.next .fillWindow).emitted, seg.header.syn = true
  loaded : ∀ front seg back, trace.sender.newSegments = front ++ seg :: back →
    Loaded trace.sender front seg
  again : trace.sender.fillWindow.fillWindow = trace.sender.fillWindow

theorem Ledger.fillWindow_nextSeqno_pos {sender : TCPSender} {accepted : List Byte}
    {created : List TCPSegment} (ledger : Ledger sender.fillWindow accepted created)
    (windowed : Windowed sender) : 0 < sender.fillWindow.nextSeqno := by
  have positive := windowed.positive
  rcases sender.fillWindow_exhausts with finished | full | ⟨sent, _, _⟩
  · have count := ledger.count
    rw [finished, if_pos rfl] at count
    omega
  · omega
  · exact Nat.pos_of_ne_zero sent

theorem sender_fills_window {capacity : Nat} {retxTimeout : UInt16} {isn : WrappingInt32}
    {trace : Trace} (reached : (traces capacity retxTimeout isn).Reachable trace) :
    FillsWindow trace := by
  have windowed := traces_windowed reached
  have ledger := (traces_recorded reached).ledger
  have after : Ledger trace.sender.fillWindow _ _ :=
    ((traces_recorded reached).next .fillWindow).ledger
  refine ⟨?_, ?_, ?_, fun _ _ _ => fillWindow_loaded ledger, fillWindow_fillWindow _⟩
  · cases finished : trace.sender.finSend with
    | true => exact Or.inl rfl
    | false =>
        refine Or.inr fun fuel enough => ?_
        obtain ⟨spare, rfl⟩ := Nat.exists_eq_add_of_le enough
        rw [fillLoop_fuel _ _ _ (Nat.le_refl _), fillWindow_of_unfinished finished]
  · rw [after.fin_iff]
    refine trace.sender.fillWindow_exhausts.imp_right (Or.imp ?_ ?_)
    · intro full
      exact Nat.le_trans (Nat.le_of_eq trace.sender.windowEnd_fillWindow) full
    · rintro ⟨_, empty, opened⟩
      exact ⟨List.isEmpty_iff.mpr empty, opened⟩
  · rw [after.syn_iff]
    exact after.created_ne_nil (after.fillWindow_nextSeqno_pos windowed)

theorem sender_fills_window_edge :
    FillsWindow ((traces 10 1000 ⟨7⟩).run (traces 10 1000 ⟨7⟩).init
      [.fillWindow, .write [1, 2, 3], .ackReceived ⟨8⟩ 3, .endInput]) :=
  sender_fills_window (Machine.reachable_run _ _ (by decide))

/-! ## The window of the latest acknowledgement -/

/-- A sender with what can be seen of its window and of its timer from outside: the
window of the latest accepted acknowledgement, whether any accepted one was zero, the
time since the latest event that restarts the timer, and the retransmissions since the
latest one that is not itself a retransmission. -/
structure Watch where
  trace : Trace
  lastWindow : Option UInt16 := none
  zeroSeen : Bool := false
  elapsed : Nat := 0
  retransmissions : Nat := 0
  deriving DecidableEq

/-- The window carried by an acknowledgement that is not ahead of `_next_seqno`. -/
def Op.advertises (sender : TCPSender) : Op → Option UInt16
  | .ackReceived ackno windowSize =>
      if unwrap ackno sender.isn sender.nextSeqno ≤ sender.nextSeqno then some windowSize
      else none
  | _ => none

def Departs (before after : TCPSender) : Prop :=
  before.ackS = before.nextSeqno ∧ after.ackS < after.nextSeqno

def Advances (before after : TCPSender) : Prop :=
  before.ackS < after.ackS

def Op.Retransmits (before after : TCPSender) : Op → Prop
  | .tick _ => before.segmentsOut.length < after.segmentsOut.length
  | _ => False

def Op.duration : Op → Nat
  | .tick ms => ms
  | _ => 0

instance (before after : TCPSender) : Decidable (Departs before after) :=
  inferInstanceAs (Decidable (_ ∧ _))

instance (before after : TCPSender) : Decidable (Advances before after) :=
  inferInstanceAs (Decidable (_ < _))

instance (before after : TCPSender) (op : Op) : Decidable (op.Retransmits before after) :=
  match op with
  | .tick _ => inferInstanceAs (Decidable (_ < _))
  | .write _ | .endInput | .fillWindow | .ackReceived _ _ | .sendEmptySegment =>
      inferInstanceAs (Decidable False)

def Watch.sender (watch : Watch) : TCPSender :=
  watch.trace.sender

def Watch.next (watch : Watch) (op : Op) : Watch :=
  let after := watch.sender.perform op
  let restarts := Departs watch.sender after ∨ Advances watch.sender after
  { trace := watch.trace.next op
    lastWindow := (op.advertises watch.sender).or watch.lastWindow
    zeroSeen := watch.zeroSeen || op.advertises watch.sender == some 0
    elapsed :=
      if restarts ∨ op.Retransmits watch.sender after then 0
      else watch.elapsed + op.duration
    retransmissions :=
      if restarts then 0
      else if op.Retransmits watch.sender after then watch.retransmissions + 1
      else watch.retransmissions }

def watches (capacity : Nat) (retxTimeout : UInt16) (isn : WrappingInt32) :
    Machine Watch Op where
  init := { trace := (traces capacity retxTimeout isn).init }
  guard := fun _ _ => True
  next := Watch.next

instance (capacity : Nat) (retxTimeout : UInt16) (isn : WrappingInt32) (watch : Watch)
    (op : Op) : Decidable ((watches capacity retxTimeout isn).guard watch op) :=
  .isTrue trivial

def usableWindow : Option UInt16 → Nat
  | none => 1
  | some windowSize => max 1 windowSize.toNat

section

variable {capacity : Nat} {retxTimeout : UInt16} {isn : WrappingInt32} {watch : Watch}

theorem watches_traces (reached : (watches capacity retxTimeout isn).Reachable watch) :
    (traces capacity retxTimeout isn).Reachable watch.trace :=
  reached.map Watch.trace rfl (fun _ _ _ => ⟨trivial, rfl⟩)

theorem Watch.next_window (followed : watch.sender.window.toNat = usableWindow watch.lastWindow)
    (op : Op) :
    (watch.next op).sender.window.toNat = usableWindow (watch.next op).lastWindow := by
  cases op with
  | write data => exact followed
  | endInput => exact followed
  | fillWindow =>
      exact (congrArg UInt16.toNat (fillWindow_frame watch.sender).2.2.1).trans followed
  | ackReceived ackno windowSize =>
      change (watch.sender.ackReceived ackno windowSize).window.toNat =
        usableWindow (((Op.ackReceived ackno windowSize).advertises watch.sender).or _)
      by_cases possible :
          unwrap ackno watch.sender.isn watch.sender.nextSeqno ≤ watch.sender.nextSeqno
      · rw [ackReceived_window possible, Op.advertises, if_pos possible]
        rfl
      · rw [ackReceived_ignored (Nat.not_le.mp possible), Op.advertises, if_neg possible]
        exact followed
  | tick ms =>
      obtain ⟨new, rto, rtoBase, retransnum, ticked, _⟩ := tick_cases watch.sender ms
      change (watch.sender.tick ms).window.toNat = _
      rw [ticked]
      exact followed
  | sendEmptySegment => exact followed

theorem watches_window (reached : (watches capacity retxTimeout isn).Reachable watch) :
    watch.sender.window.toNat = usableWindow watch.lastWindow :=
  Machine.invariant (fun watch => watch.sender.window.toNat = usableWindow watch.lastWindow)
    rfl (fun _ op _ followed => Watch.next_window followed op) reached

/-- The SYN is not charged to the window, everything after it is. -/
theorem window_respected_iff
    (reached : (watches capacity retxTimeout isn).Reachable watch) :
    (∀ tile ∈ place TCPSegment.lengthInSequenceSpace watch.sender.nextSeqno
        watch.sender.newSegments,
      tile.1 + tile.2.lengthInSequenceSpace ≤
        watch.sender.ackS + usableWindow watch.lastWindow) ↔
    (watch.sender.nextSeqno = 0 →
      watch.sender.streamIn.bufferSize < usableWindow watch.lastWindow ∨
        1452 < usableWindow watch.lastWindow) := by
  have recorded := traces_recorded (watches_traces reached)
  have windowed := traces_windowed (watches_traces reached)
  have ledger : Ledger watch.sender _ _ := recorded.ledger
  have acked : watch.sender.ackS ≤ watch.sender.nextSeqno := recorded.stock.acked
  have edge : watch.sender.windowEnd = watch.sender.ackS + usableWindow watch.lastWindow :=
    congrArg (_ + ·) (watches_window reached)
  constructor
  · intro respected zero
    cases made : watch.sender.newSegments with
    | nil =>
        obtain ⟨new, out, after, _, _⟩ := fillWindow_spec ledger recorded.stock
        have sent := after.fillWindow_nextSeqno_pos windowed
        rw [← newSegments_eq out, made, List.append_nil] at after
        have total := ledger.total.symm.trans after.total
        omega
    | cons seg rest =>
        have loaded := @fillWindow_loaded _ _ _ ledger [] rest seg made
        have first := respected (watch.sender.nextSeqno, seg) (by simp [made, place])
        have fits := loaded.fits_iff.mp (by rw [edge]; exact first) zero
        rw [edge] at fits
        simp [payloads] at fits
        omega
  · intro room tile placed
    obtain ⟨front, back, split, position⟩ := Tiling.split_of_mem_place _ placed
    rw [← edge, position]
    apply (fillWindow_loaded ledger split).fits_iff.mpr
    intro start
    have := room (by omega)
    omega

end

theorem window_respected_iff_two :
    let watch := (watches 10 1000 ⟨7⟩).run (watches 10 1000 ⟨7⟩).init
      [.fillWindow, .write [1, 2, 3], .ackReceived ⟨8⟩ 2]
    ∀ tile ∈ place TCPSegment.lengthInSequenceSpace watch.sender.nextSeqno
        watch.sender.newSegments,
      tile.1 + tile.2.lengthInSequenceSpace ≤
        watch.sender.ackS + usableWindow watch.lastWindow :=
  (window_respected_iff (Machine.reachable_run _ _ (by decide))).mpr (by decide)

/-- A byte written before the first `fill_window` goes out with the SYN: two sequence
numbers in a window of one. -/
theorem syn_overruns_window :
    ∃ watch, (watches 10 1000 ⟨7⟩).Reachable watch ∧
      watch.sender.nextSeqno = 0 ∧ watch.sender.ackS = 0 ∧ watch.lastWindow = none ∧
      watch.sender.newSegments.map TCPSegment.lengthInSequenceSpace = [2] ∧
      ¬ ∀ tile ∈ place TCPSegment.lengthInSequenceSpace watch.sender.nextSeqno
          watch.sender.newSegments,
        tile.1 + tile.2.lengthInSequenceSpace ≤
          watch.sender.ackS + usableWindow watch.lastWindow :=
  ⟨_, Machine.reachable_run _ [.write [1]] (by decide), by decide⟩

end Sponge.TCPSender
