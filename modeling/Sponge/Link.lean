import Sponge.TCPReceiver.Advance
import Sponge.TCPSender.Exhaustion

namespace Sponge

open TCPSender (Ledger Stock Recorded Opening created payloads)
open TCPReceiver (Consistent Tracked Listening Receiving Finished)

/-- One sender and one receiver, and a network that keeps every segment ever sent
and every acknowledgement ever reported. The segments are those of
`segments_out`, which is never emptied here. -/
structure Link where
  trace : TCPSender.Trace
  session : TCPReceiver.Session
  acks : List (WrappingInt32 × UInt16) := []
  deriving DecidableEq

namespace Link

def sender (link : Link) : TCPSender :=
  link.trace.sender

def receiver (link : Link) : TCPReceiver :=
  link.session.receiver

/-- The acknowledgement a receiver reports, its window capped to the 16 bits of the
header field. -/
def report (receiver : TCPReceiver) : List (WrappingInt32 × UInt16) :=
  match receiver.ackno with
  | none => []
  | some ackno => [(ackno, UInt16.ofNat (min receiver.windowSize 65535))]

inductive Action where
  | sender (op : TCPSender.Op)
  | receiver (event : TCPReceiver.Event)
  deriving DecidableEq

def next (link : Link) : Action → Link
  | .sender op =>
      { link with
        trace := link.trace.next op
        acks := link.acks ++ report link.receiver }
  | .receiver event =>
      { link with
        session := link.session.next event
        acks := link.acks ++ report (link.session.next event).receiver }

/-- Nothing is written after `end_input`, and only what was sent is delivered. -/
def Allowed (link : Link) : Action → Prop
  | .sender (.write _) => link.sender.streamIn.inputEnded = false
  | .sender (.ackReceived ackno windowSize) => (ackno, windowSize) ∈ link.acks
  | .sender _ => True
  | .receiver (.segment seg) => seg ∈ link.sender.segmentsOut
  | .receiver (.read _) => True

instance (link : Link) (action : Action) : Decidable (link.Allowed action) :=
  match action with
  | .sender (.write _) =>
      inferInstanceAs (Decidable (link.sender.streamIn.inputEnded = false))
  | .sender (.ackReceived ackno windowSize) =>
      inferInstanceAs (Decidable ((ackno, windowSize) ∈ link.acks))
  | .sender .endInput => .isTrue trivial
  | .sender .fillWindow => .isTrue trivial
  | .sender (.tick _) => .isTrue trivial
  | .sender .sendEmptySegment => .isTrue trivial
  | .receiver (.segment seg) =>
      inferInstanceAs (Decidable (seg ∈ link.sender.segmentsOut))
  | .receiver (.read _) => .isTrue trivial

structure Setup where
  sendCapacity : Nat
  retxTimeout : UInt16
  isn : WrappingInt32
  recvCapacity : Nat

def links (setup : Setup) : Machine Link Action where
  init :=
    { trace := { sender := .new setup.sendCapacity setup.retxTimeout setup.isn }
      session := { receiver := .new setup.recvCapacity } }
  guard := Allowed
  next := next

instance (setup : Setup) (link : Link) (action : Action) :
    Decidable ((links setup).guard link action) :=
  inferInstanceAs (Decidable (link.Allowed action))

/-- The receiver's position in the sequence space: nothing before the SYN, then the
SYN, the bytes written and the end. -/
def progress (session : TCPReceiver.Session) : Nat :=
  if session.synArrived then
    1 + session.receiver.streamOut.bytesWritten +
      (if session.receiver.streamOut.inputEnded then 1 else 0)
  else 0

/-! ## What the network carries -/

def sent (link : Link) : List Byte :=
  payloads (created link.trace.emitted)

section

variable {isn : WrappingInt32} {trace : TCPSender.Trace}

theorem consistent_of_ledger {sender : TCPSender} {accepted : List Byte}
    {front back : List TCPSegment} {seg : TCPSegment}
    (ledger : Ledger sender accepted (front ++ seg :: back)) :
    Consistent sender.isn (payloads (front ++ seg :: back)) (payloads front).length seg := by
  obtain ⟨seqno, _, _, syn, fin⟩ := ledger.split
  have extent := ledger.extent_front
  have all : payloads (front ++ seg :: back) =
      payloads front ++ (seg.payload.str ++ payloads back) := by
    simp [payloads]
  refine ⟨?_, ?_, ?_, ?_⟩
  · intro isSyn
    obtain rfl := syn.mp isSyn
    refine ⟨?_, rfl⟩
    rw [seqno]
    exact wrap_zero _
  · intro noSyn
    have later : front ≠ [] := fun first => by simp [syn.mpr first] at noSyn
    rw [seqno, extent, if_neg later, Nat.add_comm]
  · change seg.payload.str <+: (payloads (front ++ seg :: back)).drop (payloads front).length
    rw [all, List.drop_left]
    exact List.prefix_append _ _
  · intro isFin
    rw [all, fin isFin]
    simp [payloads]

theorem created_take_prefix (emitted : List TCPSender.Emission) (position : Nat) :
    created (emitted.take position) <+: created emitted := by
  conv => rhs; rw [← List.take_append_drop position emitted, TCPSender.created_split]
  exact List.prefix_append _ _

theorem consistent_emptySegment (isn : WrappingInt32) (source : List Byte) (index : Nat) :
    Consistent isn source index (TCPSender.emptySegment (wrap (index + 1) isn)) where
  first := fun syn => by simp [TCPSender.emptySegment] at syn
  later := fun _ => rfl
  payload := List.nil_prefix
  last := fun fin => by simp [TCPSender.emptySegment] at fin

theorem queued_cases (recorded : Recorded isn trace) {seg : TCPSegment}
    (queued : seg ∈ trace.sender.segmentsOut) :
    seg ∈ created trace.emitted ∨
      ∃ number ≤ trace.sender.nextSeqno, seg = TCPSender.emptySegment (wrap number isn) := by
  rw [← recorded.queue] at queued
  obtain ⟨emission, member, rfl⟩ := List.mem_map.mp queued
  by_cases fill : emission.op = .fillWindow
  · exact Or.inl (List.mem_map_of_mem (List.mem_filter.mpr ⟨member, by simp [fill]⟩))
  · obtain ⟨position, found⟩ := List.mem_iff_getElem?.mp member
    have earlier := created_take_prefix trace.emitted position
    rcases recorded.repeats position emission found fill with copy | ⟨_, empty⟩
    · exact Or.inl (earlier.subset copy)
    · refine Or.inr ⟨_, ?_, empty⟩
      obtain ⟨rest, split⟩ := earlier
      rw [← recorded.ledger.total, ← split, Tiling.extent_append]
      exact Nat.le_add_right _ _

theorem consistent_of_queued (recorded : Recorded isn trace)
    (bound : trace.accepted.length < 2 ^ 31 - 2) {seg : TCPSegment}
    (queued : seg ∈ trace.sender.segmentsOut) {written : Nat}
    (behind : written ≤ (payloads (created trace.emitted)).length) :
    ∃ index, Consistent isn (payloads (created trace.emitted)) index seg ∧
      (seg.header.syn = false → unwrap (wrap index isn) isn written = index) ∧
      seg.payload.str.length < 2 ^ 31 := by
  have ledger := recorded.ledger
  have total := congrArg List.length ledger.bytes
  rw [List.length_append] at total
  have next := ledger.nextSeqno_le
  rcases queued_cases recorded queued with member | ⟨number, reached, rfl⟩
  · have small : seg.payload.str.length ≤ 1452 := ledger.small seg member
    obtain ⟨front, back, split⟩ := List.append_of_mem member
    rw [split] at ledger total behind ⊢
    have consistent := consistent_of_ledger ledger
    rw [recorded.number] at consistent
    have inside : (payloads front).length ≤ (payloads (front ++ seg :: back)).length := by
      simp [payloads]
    exact ⟨_, consistent,
      fun _ => unwrap_wrap isn (by omega) (by omega) (by omega), by omega⟩
  · have empty (seqno : WrappingInt32) :
        (TCPSender.emptySegment seqno).payload.str.length < 2 ^ 31 := by
      change 0 < 2 ^ 31
      decide
    cases number with
    | zero =>
        -- one step before the SYN, the segment looks like the end of the number space
        have turn : wrap 0 isn = wrap (2 ^ 32 - 1 + 1) isn :=
          (wrap_eq_wrap_iff _ _ isn).mpr rfl
        rw [turn]
        exact ⟨2 ^ 32 - 1, consistent_emptySegment isn _ _,
          fun _ => unwrap_wrap_ahead isn (by decide) (by omega), empty _⟩
    | succ index =>
        exact ⟨index, consistent_emptySegment isn _ index,
          fun _ => unwrap_wrap isn (by omega) (by omega) (by omega), empty _⟩

end

/-! ## The joint invariant -/

structure Joint (setup : Setup) (link : Link) : Prop where
  recorded : Recorded setup.isn link.trace
  opening : Opening link.sender (created link.trace.emitted)
  tracked : Tracked setup.isn link.sent setup.recvCapacity link.session
  started : link.session.synArrived = true → created link.trace.emitted ≠ []
  greeted : link.session.synArrived = true →
    ∀ seg rest, created link.trace.emitted = seg :: rest →
      seg.payload.str.length ≤ link.receiver.streamOut.bytesWritten
  closed : link.receiver.reassembler.eofF = true ∨
    link.receiver.streamOut.inputEnded = true → link.sender.finSend = true
  finished : link.sender.finSend = true → link.sender.stream.eof = true
  acks : ∀ ack ∈ link.acks, ∃ number, ack.1 = wrap number setup.isn ∧
    1 ≤ number ∧ number ≤ progress link.session
  acked : link.sender.ackS ≤ progress link.session

/-- Bounds under which the numbers of one connection stay on the first half turn. -/
structure Bounded (setup : Setup) (link : Link) : Prop where
  positive : 0 < setup.recvCapacity
  small : setup.recvCapacity < 2 ^ 31
  bytes : link.trace.accepted.length < 2 ^ 31 - 2

theorem joint_init (setup : Setup) : Joint setup (links setup).init where
  recorded := TCPSender.recorded_new _ _ _
  opening := TCPSender.opening_new _ _ _
  tracked := TCPReceiver.tracked_init _ _ _
  started := fun arrived => by simp [links] at arrived
  greeted := fun arrived => by simp [links] at arrived
  closed := fun closed => by
    simp [links, receiver, TCPReceiver.new, StreamReassembler.new, TCPReceiver.streamOut,
      StreamReassembler.streamOut, ByteStream.new, ByteStream.inputEnded] at closed
  finished := fun finished => by simp [links, sender, TCPSender.new] at finished
  acks := fun _ member => by simp [links] at member
  acked := Nat.le_refl _

section

variable {setup : Setup} {link : Link}

theorem sent_length_le (joint : Joint setup link) :
    link.sent.length ≤ link.trace.accepted.length := by
  have total := congrArg List.length joint.recorded.ledger.bytes
  rw [List.length_append] at total
  unfold sent
  omega

theorem Joint.correct (joint : Joint setup link) (bounded : Bounded setup link) :
    TCPReceiver.ReceivesCorrectly setup.isn link.sent setup.recvCapacity link.session :=
  joint.tracked.correct bounded.small

theorem Joint.progress_le (joint : Joint setup link) (bounded : Bounded setup link) :
    progress link.session ≤ link.sender.nextSeqno := by
  have correct := joint.correct bounded
  have count := joint.recorded.ledger.count
  have read := joint.recorded.ledger.read
  unfold progress
  split
  next arrived =>
    have within : link.session.receiver.streamOut.bytesWritten ≤
        (payloads (created link.trace.emitted)).length := correct.within
    rw [if_neg (joint.started arrived)] at count
    change _ ≤ link.trace.sender.nextSeqno
    split
    next ended =>
      have finished : link.trace.sender.finSend = true := joint.closed (Or.inr ended)
      rw [if_pos finished] at count
      omega
    next => omega
  next => exact Nat.zero_le _

end

theorem report_number {isn : WrappingInt32} {source : List Byte} {capacity : Nat}
    {session : TCPReceiver.Session} (small : capacity < 2 ^ 31)
    (tracked : Tracked isn source capacity session) {ack : WrappingInt32 × UInt16}
    (reported : ack ∈ report session.receiver) :
    ack.1 = wrap (progress session) isn ∧ 1 ≤ progress session := by
  have correct := tracked.correct small
  unfold report at reported
  cases arrived : session.synArrived with
  | false =>
      rw [correct.silent.mpr arrived] at reported
      simp at reported
  | true =>
      rw [correct.ackno arrived, List.mem_singleton] at reported
      unfold progress
      rw [arrived, if_pos rfl, reported]
      exact ⟨rfl, by omega⟩

theorem arrived_of_progress {session : TCPReceiver.Session} (positive : 0 < progress session) :
    session.synArrived = true := by
  by_contra waiting
  rw [progress, if_neg waiting] at positive
  exact absurd positive (Nat.lt_irrefl 0)

theorem progress_le_next (session : TCPReceiver.Session) (event : TCPReceiver.Event) :
    progress session ≤ progress (session.next event) := by
  cases event with
  | segment seg =>
      obtain ⟨extra, ended, extended⟩ :=
        TCPReceiver.segmentReceived_streamOut session.receiver seg
      unfold progress TCPReceiver.Session.next
      dsimp only
      rw [extended]
      unfold ByteStream.bytesWritten ByteStream.inputEnded
      have flag : (if session.receiver.streamOut.endFlag then 1 else 0) ≤
          if (session.receiver.streamOut.endFlag || ended) then 1 else 0 := by
        cases session.receiver.streamOut.endFlag <;> cases ended <;> decide
      cases session.synArrived with
      | false => exact Nat.zero_le _
      | true =>
          simp only [Bool.true_or, if_true]
          omega
  | read len =>
      unfold progress TCPReceiver.Session.next
      dsimp only
      rw [TCPReceiver.readOut_streamOut]
      exact Nat.le_refl _

/-! ## Operations of the sender -/

section

variable {setup : Setup} {link : Link}

theorem created_next {op : TCPSender.Op} {new : List TCPSegment}
    (out : (link.sender.perform op).segmentsOut = link.sender.segmentsOut ++ new) :
    created (link.trace.next op).emitted =
      created link.trace.emitted ++ (if op = .fillWindow then new else []) := by
  have suffix : (link.trace.sender.perform op).segmentsOut.drop
      link.trace.sender.segmentsOut.length = new := by
    rw [show (link.trace.sender.perform op).segmentsOut = _ from out]
    exact List.drop_left
  rw [← suffix]
  exact TCPSender.created_append _ _ _ _

theorem Joint.acks_noted (joint : Joint setup link) (bounded : Bounded setup link) :
    ∀ ack ∈ link.acks ++ report link.receiver, ∃ number, ack.1 = wrap number setup.isn ∧
      1 ≤ number ∧ number ≤ progress link.session := by
  intro ack member
  rcases List.mem_append.mp member with old | reported
  · exact joint.acks ack old
  · obtain ⟨number, positive⟩ := report_number bounded.small joint.tracked reported
    exact ⟨_, number, positive, Nat.le_refl _⟩

theorem Joint.other (joint : Joint setup link) (bounded : Bounded setup link)
    {op : TCPSender.Op} (other : op ≠ .fillWindow)
    (opening : Opening (link.sender.perform op) (created link.trace.emitted))
    (finSend : (link.sender.perform op).finSend = link.sender.finSend)
    (finished : link.sender.finSend = true → (link.sender.perform op).stream.eof = true)
    (acked : (link.sender.perform op).ackS ≤ progress link.session) :
    Joint setup (link.next (.sender op)) := by
  have recorded := joint.recorded.next op
  have same : created (link.trace.next op).emitted = created link.trace.emitted := by
    unfold TCPSender.Trace.next
    dsimp only
    rw [TCPSender.created_append, if_neg other, List.append_nil]
  refine ⟨recorded, ?_, ?_, ?_, ?_, ?_, ?_, joint.acks_noted bounded, acked⟩
  · change Opening _ (created (link.trace.next op).emitted)
    rw [same]
    exact opening
  · change Tracked _ (payloads (created (link.trace.next op).emitted)) _ _
    rw [same]
    exact joint.tracked
  · intro arrived
    change created (link.trace.next op).emitted ≠ []
    rw [same]
    exact joint.started arrived
  · intro arrived seg rest
    change created (link.trace.next op).emitted = _ → _
    rw [same]
    exact joint.greeted arrived seg rest
  · intro closed
    exact finSend.trans (joint.closed closed)
  · intro done
    exact finished (finSend.symm.trans done)

theorem Joint.write (joint : Joint setup link) (bounded : Bounded setup link)
    {data : List Byte} (allowed : link.Allowed (.sender (.write data))) :
    Joint setup (link.next (.sender (.write data))) := by
  have running : link.sender.stream.endFlag = false := allowed
  refine joint.other bounded (by simp) (joint.opening.of_same rfl ?_) rfl ?_ joint.acked
  · change (link.sender.stream.write data).1.error = _
    rw [ByteStream.write_eq]
  · intro finished
    have ended := joint.finished finished
    rw [ByteStream.eof, running, Bool.false_and] at ended
    exact absurd ended Bool.false_ne_true

theorem Joint.endInput (joint : Joint setup link) (bounded : Bounded setup link) :
    Joint setup (link.next (.sender .endInput)) := by
  refine joint.other bounded (by simp) (joint.opening.of_same rfl rfl) rfl ?_ joint.acked
  intro finished
  have ended := joint.finished finished
  rw [ByteStream.eof, Bool.and_eq_true] at ended
  change (true && link.sender.stream.bufferEmpty) = true
  rw [ended.2, Bool.and_true]

/-- The sender recovers the number of every acknowledgement it can get. -/
theorem Joint.unwrap_ack (joint : Joint setup link) (bounded : Bounded setup link)
    {number : Nat} (known : number ≤ progress link.session) :
    unwrap (wrap number setup.isn) link.sender.isn link.sender.nextSeqno = number ∧
      number ≤ link.sender.nextSeqno := by
  have ahead := joint.progress_le bounded
  have next : link.sender.nextSeqno ≤ link.trace.accepted.length + 2 :=
    joint.recorded.ledger.nextSeqno_le
  have bytes := bounded.bytes
  rw [show link.sender.isn = setup.isn from joint.recorded.number]
  exact ⟨unwrap_wrap setup.isn (by omega) (by omega) (by omega), by omega⟩

theorem Joint.ackReceived (joint : Joint setup link) (bounded : Bounded setup link)
    {ackno : WrappingInt32} {windowSize : UInt16}
    (allowed : link.Allowed (.sender (.ackReceived ackno windowSize))) :
    Joint setup (link.next (.sender (.ackReceived ackno windowSize))) := by
  obtain ⟨number, rfl, positive, known⟩ := joint.acks _ allowed
  obtain ⟨unwrapped, possible⟩ := joint.unwrap_ack bounded known
  have arrived := arrived_of_progress (Nat.lt_of_lt_of_le positive known)
  obtain ⟨_, stream, _, finSend, _⟩ :=
    TCPSender.ackReceived_frame link.sender (wrap number setup.isn) windowSize
  refine joint.other bounded (by simp)
    (joint.opening.ackReceived (joint.started arrived) _ _) finSend ?_ ?_
  · intro finished
    change (link.sender.ackReceived _ _).stream.eof = true
    rw [stream]
    exact joint.finished finished
  · have acked := joint.acked
    change (link.sender.ackReceived _ _).ackS ≤ _
    rw [TCPSender.ackReceived_eq unwrapped possible]
    exact Nat.max_le.mpr ⟨acked, known⟩

theorem Joint.tick (joint : Joint setup link) (bounded : Bounded setup link) (ms : Nat) :
    Joint setup (link.next (.sender (.tick ms))) := by
  obtain ⟨new, rto, rtoBase, retransnum, ticked, _⟩ := TCPSender.tick_cases link.sender ms
  have performed : link.sender.perform (.tick ms) = _ := ticked
  refine joint.other bounded (by simp) ?_ ?_ ?_ ?_ <;> rw [performed]
  · exact joint.opening.of_same rfl rfl
  · exact joint.finished
  · exact joint.acked

theorem Joint.sendEmptySegment (joint : Joint setup link) (bounded : Bounded setup link) :
    Joint setup (link.next (.sender .sendEmptySegment)) :=
  joint.other bounded (by simp) (joint.opening.of_same rfl rfl) rfl joint.finished joint.acked

theorem Joint.fillWindow (joint : Joint setup link) (bounded : Bounded setup link) :
    Joint setup (link.next (.sender .fillWindow)) := by
  obtain ⟨new, out, ledger, _, closing⟩ :=
    TCPSender.fillWindow_spec joint.recorded.ledger joint.recorded.stock
  have grown : created (link.trace.next .fillWindow).emitted =
      created link.trace.emitted ++ new := created_next out
  have acked : link.sender.fillWindow.ackS = link.sender.ackS :=
    (TCPSender.fillWindow_frame link.sender).2.1
  refine ⟨joint.recorded.next .fillWindow, ?_, ?_, ?_, ?_, ?_, ?_,
    joint.acks_noted bounded, ?_⟩
  · change Opening link.sender.fillWindow (created (link.trace.next .fillWindow).emitted)
    rw [grown]
    exact joint.opening.fillWindow joint.recorded.ledger joint.recorded.stock out
  · change Tracked _ (payloads (created (link.trace.next .fillWindow).emitted)) _ _
    rw [grown]
    refine joint.tracked.extend ?_ ?_
    · change payloads (created link.trace.emitted) <+: _
      simp [payloads]
    · intro closed
      have finished := joint.closed closed
      rcases closing with ⟨_, nothing, _⟩ | ⟨unfinished, _⟩
      · rw [nothing, List.append_nil]
        rfl
      · exact absurd (finished.symm.trans unfinished) (by decide)
  · intro arrived
    change created (link.trace.next .fillWindow).emitted ≠ []
    rw [grown]
    simp [joint.started arrived]
  · intro arrived seg rest split
    change created (link.trace.next .fillWindow).emitted = _ at split
    obtain ⟨first, others, before⟩ := List.exists_cons_of_ne_nil (joint.started arrived)
    rw [grown, before] at split
    obtain ⟨rfl, _⟩ := List.cons.inj split
    exact joint.greeted arrived _ others before
  · intro closed
    have finished := joint.closed closed
    rcases closing with ⟨_, _, same⟩ | ⟨unfinished, _⟩
    · exact (congrArg TCPSender.finSend same).trans finished
    · exact absurd (finished.symm.trans unfinished) (by decide)
  · rcases closing with ⟨finished, _, same⟩ | ⟨_, closing⟩
    · intro _
      change link.sender.fillWindow.stream.eof = true
      rw [show link.sender.fillWindow = link.sender from same]
      exact joint.finished finished
    · exact closing
  · change link.sender.fillWindow.ackS ≤ _
    rw [acked]
    exact joint.acked

theorem Joint.sender (joint : Joint setup link) (bounded : Bounded setup link)
    {op : TCPSender.Op} (allowed : link.Allowed (.sender op)) :
    Joint setup (link.next (.sender op)) := by
  cases op with
  | write data => exact joint.write bounded allowed
  | endInput => exact joint.endInput bounded
  | fillWindow => exact joint.fillWindow bounded
  | ackReceived ackno windowSize => exact joint.ackReceived bounded allowed
  | tick ms => exact joint.tick bounded ms
  | sendEmptySegment => exact joint.sendEmptySegment bounded

/-! ## Events of the receiver -/

theorem Joint.event (joint : Joint setup link) (bounded : Bounded setup link)
    {event : TCPReceiver.Event}
    (tracked : Tracked setup.isn link.sent setup.recvCapacity (link.session.next event))
    (started : (link.session.next event).synArrived = true →
      created link.trace.emitted ≠ [])
    (greeted : (link.session.next event).synArrived = true →
      ∀ seg rest, created link.trace.emitted = seg :: rest →
        seg.payload.str.length ≤ (link.session.next event).receiver.streamOut.bytesWritten)
    (closed : (link.session.next event).receiver.reassembler.eofF = true ∨
      (link.session.next event).receiver.streamOut.inputEnded = true →
      link.sender.finSend = true) :
    Joint setup (link.next (.receiver event)) := by
  have grows := progress_le_next link.session event
  refine ⟨joint.recorded, joint.opening, tracked, started, greeted, closed,
    joint.finished, ?_, Nat.le_trans joint.acked grows⟩
  intro ack member
  rcases List.mem_append.mp member with old | reported
  · obtain ⟨number, same, positive, known⟩ := joint.acks ack old
    exact ⟨number, same, positive, Nat.le_trans known grows⟩
  · obtain ⟨number, positive⟩ := report_number bounded.small tracked reported
    exact ⟨_, number, positive, Nat.le_refl _⟩

theorem Joint.eq_first (joint : Joint setup link) {seg : TCPSegment}
    (queued : seg ∈ link.sender.segmentsOut) (syn : seg.header.syn = true)
    {first : TCPSegment} {rest : List TCPSegment}
    (split : created link.trace.emitted = first :: rest) : seg = first := by
  rcases queued_cases joint.recorded queued with member | ⟨number, _, rfl⟩
  · obtain ⟨front, back, parts⟩ := List.append_of_mem member
    have ledger := joint.recorded.ledger
    rw [parts] at ledger split
    obtain ⟨_, _, _, isFirst, _⟩ := ledger.split
    rw [isFirst.mp syn] at split
    exact (List.cons.inj split).1
  · simp [TCPSender.emptySegment] at syn

theorem Joint.segment (joint : Joint setup link) (bounded : Bounded setup link)
    {seg : TCPSegment} (allowed : link.Allowed (.receiver (.segment seg))) :
    Joint setup (link.next (.receiver (.segment seg))) := by
  have within : link.session.receiver.streamOut.bytesWritten ≤
      (payloads (created link.trace.emitted)).length := (joint.correct bounded).within
  have length := sent_length_le joint
  have bytes := bounded.bytes
  obtain ⟨index, consistent, located, payload⟩ :=
    consistent_of_queued joint.recorded bytes allowed within
  refine joint.event bounded ?_ ?_ ?_ ?_
  · exact joint.tracked.segment bounded.positive bounded.small (by omega) consistent payload
      located
  · intro arrived
    change (link.session.synArrived || seg.header.syn) = true at arrived
    rcases Bool.or_eq_true_iff.mp arrived with before | syn
    · exact joint.started before
    · rcases queued_cases joint.recorded allowed with member | ⟨number, _, rfl⟩
      · exact List.ne_nil_of_mem member
      · simp [TCPSender.emptySegment] at syn
  · intro arrived first rest split
    by_cases before : link.session.synArrived = true
    · exact Nat.le_trans (joint.greeted before first rest split)
        (TCPReceiver.bytesWritten_le_next link.session (.segment seg))
    · have listening := joint.tracked.phase
      rw [if_neg before] at listening
      have syn : seg.header.syn = true := (Bool.or_eq_true_iff.mp arrived).resolve_left before
      obtain rfl : seg = first := joint.eq_first allowed syn split
      refine listening.first_written syn consistent ⟨?_, payload, by omega⟩ ?_
        (joint.opening.first seg rest split).1
      · rw [joint.tracked.room]
        exact bounded.small
      · rw [joint.tracked.room]
        exact bounded.positive
  · intro closed
    rcases TCPReceiver.segmentReceived_closing closed with before | fin
    · exact joint.closed before
    · rcases queued_cases joint.recorded allowed with member | ⟨number, _, rfl⟩
      · exact joint.recorded.ledger.fin_iff.mp ⟨seg, member, fin⟩
      · simp [TCPSender.emptySegment] at fin

theorem Joint.read (joint : Joint setup link) (bounded : Bounded setup link) (len : Nat) :
    Joint setup (link.next (.receiver (.read len))) := by
  refine joint.event bounded (joint.tracked.read len) joint.started ?_ ?_
  · change _ → ∀ seg rest, _ → _ ≤ (link.session.receiver.readOut len).streamOut.bytesWritten
    rw [TCPReceiver.readOut_streamOut]
    exact joint.greeted
  · change (_ ∨ (link.session.receiver.readOut len).streamOut.inputEnded = true) → _
    rw [TCPReceiver.readOut_streamOut]
    exact joint.closed

theorem Joint.next (joint : Joint setup link) (bounded : Bounded setup link)
    {action : Action} (allowed : link.Allowed action) : Joint setup (link.next action) := by
  match action with
  | .sender _ => exact joint.sender bounded allowed
  | .receiver (.segment _) => exact joint.segment bounded allowed
  | .receiver (.read len) => exact joint.read bounded len

end

theorem accepted_le_next (link : Link) (action : Action) :
    link.trace.accepted.length ≤ (link.next action).trace.accepted.length := by
  cases action with
  | sender op =>
      change _ ≤ (link.trace.accepted ++ op.accepted link.trace.sender).length
      rw [List.length_append]
      exact Nat.le_add_right _ _
  | receiver event => exact Nat.le_refl _

theorem links_joint {setup : Setup} (positive : 0 < setup.recvCapacity)
    (small : setup.recvCapacity < 2 ^ 31) {link : Link}
    (reached : (links setup).Reachable link)
    (bytes : link.trace.accepted.length < 2 ^ 31 - 2) : Joint setup link := by
  refine Machine.invariant_below (Joint setup) (fun link => link.trace.accepted.length)
    (2 ^ 31 - 2) (fun link action _ => accepted_le_next link action) (joint_init setup) ?_
    reached bytes
  intro link action allowed before _ joint
  exact joint.next ⟨positive, small, before⟩ allowed

/-- The invariant rule for runs within the bounds, where the joint invariant may be
used. -/
theorem links_invariant {setup : Setup} {allowed : Link → Action → Prop}
    (positive : 0 < setup.recvCapacity) (small : setup.recvCapacity < 2 ^ 31)
    (Holds : Link → Prop) (base : Holds (links setup).init)
    (step : ∀ link action, Joint setup link → Bounded setup link → link.Allowed action →
      allowed link action → Holds link → Holds (link.next action))
    {link : Link} (reached : ((links setup).restrict allowed).Reachable link)
    (bytes : link.trace.accepted.length < 2 ^ 31 - 2) : Holds link := by
  have both : Joint setup link ∧ Holds link := by
    refine @Machine.invariant_below _ _ ((links setup).restrict allowed)
      (fun link => Joint setup link ∧ Holds link) (fun link => link.trace.accepted.length)
      (2 ^ 31 - 2) (fun link action _ => accepted_le_next link action)
      ⟨joint_init setup, base⟩ ?_ link reached bytes
    rintro link action ⟨permitted, keeps⟩ before _ ⟨joint, holds⟩
    have bounded : Bounded setup link := ⟨positive, small, before⟩
    exact ⟨joint.next bounded permitted, step link action joint bounded permitted keeps holds⟩
  exact both.2

/-! ## Safety -/

/-- End to end: the output is a front of the input, it ends only with the whole
input, and nothing is taken for acknowledged that was not delivered. -/
structure Safe (link : Link) : Prop where
  output : link.session.consumed ++ link.receiver.streamOut.bts <+: link.trace.accepted
  ended : link.receiver.streamOut.inputEnded = true →
    link.sender.streamIn.inputEnded = true ∧
      link.session.consumed ++ link.receiver.streamOut.bts = link.trace.accepted
  acked : link.sender.ackS ≤ progress link.session

theorem Joint.sent_of_empty {setup : Setup} {link : Link} (joint : Joint setup link)
    (empty : link.sender.stream.bts = []) : link.sent = link.trace.accepted := by
  have bytes := joint.recorded.ledger.bytes
  rwa [show link.trace.sender.stream.bts = [] from empty, List.append_nil] at bytes

theorem Joint.input_of_finished {setup : Setup} {link : Link} (joint : Joint setup link)
    (finished : link.sender.finSend = true) :
    link.sender.stream.endFlag = true ∧ link.sender.stream.bts = [] := by
  have ended := joint.finished finished
  rw [ByteStream.eof, Bool.and_eq_true] at ended
  exact ⟨ended.1, by simpa [ByteStream.bufferEmpty] using ended.2⟩

theorem link_safe {setup : Setup} (positive : 0 < setup.recvCapacity)
    (small : setup.recvCapacity < 2 ^ 31) {link : Link}
    (reached : (links setup).Reachable link)
    (bytes : link.trace.accepted.length < 2 ^ 31 - 2) : Safe link := by
  have joint := links_joint positive small reached bytes
  have correct := joint.correct ⟨positive, small, bytes⟩
  have output : link.session.consumed ++ link.receiver.streamOut.bts =
      link.sent.take link.receiver.streamOut.bytesWritten := correct.output
  have sent : link.sent <+: link.trace.accepted := ⟨_, joint.recorded.ledger.bytes⟩
  refine ⟨?_, ?_, joint.acked⟩
  · rw [output]
    have taken := link.sent.take_prefix link.receiver.streamOut.bytesWritten
    exact taken.trans sent
  · intro ended
    obtain ⟨closed, empty⟩ := joint.input_of_finished (joint.closed (Or.inr ended))
    have written : link.receiver.streamOut.bytesWritten = link.sent.length :=
      correct.ended ended
    rw [output, written, List.take_length]
    exact ⟨closed, joint.sent_of_empty empty⟩

def shortSetup : Setup :=
  { sendCapacity := 8, retxTimeout := 1000, isn := ⟨0xfffffffd⟩, recvCapacity := 2 }

theorem link_safe_short :
    Safe ((links shortSetup).run (links shortSetup).init
      [.sender (.write [1, 2, 3]), .sender .fillWindow,
        .receiver (.segment ⟨{ seqno := ⟨0xfffffffd⟩, syn := true }, .ofString [1]⟩),
        .sender (.ackReceived ⟨0xffffffff⟩ 1), .sender .endInput, .sender .fillWindow,
        .receiver (.read 1),
        .receiver (.segment ⟨{ seqno := ⟨0xfffffffd⟩, syn := true }, .ofString [1]⟩),
        .receiver (.segment ⟨{ seqno := ⟨0xffffffff⟩ }, .ofString [2]⟩)]) :=
  link_safe (by decide) (by decide) (Machine.reachable_run _ _ (by decide)) (by decide)

end Link

end Sponge
