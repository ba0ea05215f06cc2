import Sponge.Data.Execution
import Sponge.Link.Agreement
import Sponge.Link.Progress

namespace Sponge.Link

open Filter
open TCPSender (created tiles)

/-! Connections that go on forever over a network that loses, repeats and reorders, but
not forever the same thing. -/

def output (link : Link) : List Byte :=
  link.session.consumed ++ link.receiver.streamOut.bts

structure Grows (link later : Link) : Prop where
  acked : link.sender.ackS ≤ later.sender.ackS
  numbered : link.sender.nextSeqno ≤ later.sender.nextSeqno
  made : created link.trace.emitted <+: created later.trace.emitted
  accepted : link.trace.accepted <+: later.trace.accepted
  ended : link.sender.stream.endFlag = true → later.sender.stream.endFlag = true
  progress : progress link.session ≤ progress later.session
  written : link.receiver.streamOut.bytesWritten ≤ later.receiver.streamOut.bytesWritten
  closed : link.receiver.streamOut.inputEnded = true →
    later.receiver.streamOut.inputEnded = true
  consumed : link.session.consumed <+: later.session.consumed
  output : link.output <+: later.output

instance : Std.Refl Grows where
  refl _ := ⟨Nat.le_refl _, Nat.le_refl _, List.prefix_rfl, List.prefix_rfl, id, Nat.le_refl _,
    Nat.le_refl _, id, List.prefix_rfl, List.prefix_rfl⟩

instance : IsTrans Link Grows where
  trans _ _ _ front back :=
    { acked := Nat.le_trans front.acked back.acked
      numbered := Nat.le_trans front.numbered back.numbered
      made := front.made.trans back.made
      accepted := front.accepted.trans back.accepted
      ended := back.ended ∘ front.ended
      progress := Nat.le_trans front.progress back.progress
      written := Nat.le_trans front.written back.written
      closed := back.closed ∘ front.closed
      consumed := front.consumed.trans back.consumed
      output := front.output.trans back.output }

theorem endFlag_perform {sender : TCPSender} (op : TCPSender.Op)
    (ended : sender.stream.endFlag = true) : (sender.perform op).stream.endFlag = true := by
  cases op with
  | write data =>
      change (sender.stream.write data).1.endFlag = true
      rw [ByteStream.write_eq]
      exact ended
  | endInput => rfl
  | fillWindow => exact (TCPSender.fillWindow_frame sender).2.2.2.trans ended
  | ackReceived ackno windowSize =>
      obtain ⟨_, stream, _⟩ := sender.ackReceived_frame ackno windowSize
      exact (congrArg ByteStream.endFlag stream).trans ended
  | tick ms =>
      obtain ⟨_, _, _, _, ticked, _⟩ := sender.tick_cases ms
      exact (congrArg (fun sender => sender.stream.endFlag) ticked).trans ended
  | sendEmptySegment => exact ended

theorem grows_sender (link : Link) (op : TCPSender.Op) :
    Grows link (link.next (.sender op)) where
  acked := link.sender.ackS_le_perform op
  numbered := (perform_forward link.sender op).1
  made := by
    change _ <+: created (link.trace.emitted ++ _)
    rw [TCPSender.created_split]
    exact List.prefix_append _ _
  accepted := List.prefix_append _ _
  ended := endFlag_perform op
  progress := Nat.le_refl _
  written := Nat.le_refl _
  closed := id
  consumed := List.prefix_rfl
  output := List.prefix_rfl

theorem output_next (session : TCPReceiver.Session) (event : TCPReceiver.Event) :
    session.consumed ++ session.receiver.streamOut.bts <+:
      (session.next event).consumed ++ (session.next event).receiver.streamOut.bts := by
  cases event with
  | segment seg =>
      obtain ⟨extra, _, extended⟩ :=
        TCPReceiver.segmentReceived_streamOut session.receiver seg
      refine ⟨extra, ?_⟩
      change _ = _ ++ (session.receiver.segmentReceived seg).streamOut.bts
      rw [extended, List.append_assoc]
      rfl
  | read len =>
      change _ <+: (_ ++ (session.receiver.streamOut.read len).1) ++
        (session.receiver.readOut len).streamOut.bts
      rw [TCPReceiver.readOut_streamOut, ByteStream.read_eq, List.append_assoc,
        List.take_append_drop]

theorem grows_receiver (link : Link) (event : TCPReceiver.Event) :
    Grows link (link.next (.receiver event)) where
  acked := Nat.le_refl _
  numbered := Nat.le_refl _
  made := List.prefix_rfl
  accepted := List.prefix_rfl
  ended := id
  progress := progress_le_next link.session event
  written := TCPReceiver.bytesWritten_le_next link.session event
  closed := inputEnded_next event
  consumed := by
    cases event with
    | segment seg => exact List.prefix_rfl
    | read len => exact List.prefix_append _ _
  output := output_next link.session event

theorem grows_next (link : Link) (action : Action) : Grows link (link.next action) := by
  cases action with
  | sender op => exact grows_sender link op
  | receiver event => exact grows_receiver link event

/-! ## Fair executions -/

section

variable {setup : Setup}

def PutsOut (link later : Link) (seg : TCPSegment) : Prop :=
  seg ∈ later.sender.segmentsOut.drop link.sender.segmentsOut.length

/-- Everybody keeps doing their part, the timer keeps running out, and whatever is sent
again and again gets through again and again. -/
structure Fair (execution : Execution (links setup)) : Prop where
  fills : ∃ᶠ time in atTop, execution.op time = .sender .fillWindow
  reads : ∃ᶠ time in atTop, ∃ len, execution.op time = .receiver (.read len) ∧
    (execution.state time).receiver.streamOut.bufferSize ≤ len
  expires : ∃ᶠ time in atTop, ∃ ms, execution.op time = .sender (.tick ms) ∧
    (execution.state time).sender.rto.toNat ≤ ms
  segments : ∀ seg,
    (∃ᶠ time in atTop, PutsOut (execution.state time) (execution.state (time + 1)) seg) →
      ∃ᶠ time in atTop, execution.op time = .receiver (.segment seg)
  acks : ∀ ackno windowSize,
    (∃ᶠ time in atTop, (ackno, windowSize) ∈ report (execution.state time).receiver) →
      ∃ᶠ time in atTop, execution.op time = .sender (.ackReceived ackno windowSize)

/-- What a connection over a fair network comes to. -/
structure Delivers (execution : Execution (links setup)) : Prop where
  settles : ∃ᶠ time in atTop, Settled (execution.state time).trace.accepted
    (execution.state time).sender.streamIn.inputEnded (execution.state time)
  delivered : ∀ time, ∀ᶠ later in atTop,
    (execution.state time).trace.accepted <+: (execution.state later).session.consumed
  closed : ∀ time, (execution.state time).sender.streamIn.inputEnded = true →
    ∀ᶠ later in atTop, (execution.state later).receiver.streamOut.inputEnded = true ∧
      (execution.state later).sender.stateSummary = .finAcked

theorem grows_after (execution : Execution (links setup)) {early late : Nat}
    (order : early ≤ late) : Grows (execution.state early) (execution.state late) := by
  refine Nat.rel_of_forall_rel_succ_of_le Grows ?_ order
  intro time
  rw [execution.follows]
  exact grows_next _ _

variable {execution : Execution (links setup)}

/-! ## A stuck sender -/

theorem Joint.oldest_unique {link : Link} (joint : Joint setup link)
    {tile : Nat × TCPSegment} (placed : tile ∈ tiles (created link.trace.emitted))
    (starts : tile.1 ≤ link.sender.ackS)
    (reaches : link.sender.ackS < tile.1 + tile.2.lengthInSequenceSpace) :
    ∃ key, link.sender.segmentsNoack.begin? = some (key, tile.2) := by
  have ledger := joint.recorded.ledger
  have stop : _ ≤ link.sender.nextSeqno := ledger.bounds placed
  obtain ⟨entry, first⟩ := joint.recorded.stock.exists_oldest ledger
    (show link.sender.ackS < link.sender.nextSeqno by omega)
  obtain ⟨other, otherPlaced, rfl, otherStarts, otherReaches⟩ :=
    joint.recorded.stock.oldest first
  have inside : link.sender.ackS < 0 + Tiling.extent TCPSegment.lengthInSequenceSpace
      (created link.trace.emitted) := by
    rw [ledger.total]
    change _ < 0 + link.sender.nextSeqno
    omega
  obtain ⟨_, _, unique⟩ := Tiling.place_existsUnique TCPSegment.lengthInSequenceSpace
    (Nat.zero_le link.sender.ackS) inside
  have same : other = tile := (unique other ⟨otherPlaced, otherStarts, otherReaches⟩).trans
    (unique tile ⟨placed, starts, reaches⟩).symm
  exact ⟨_, first.trans (by rw [same]; rfl)⟩

theorem Joint.expired_puts_out {link : Link} (joint : Joint setup link)
    {tile : Nat × TCPSegment} (placed : tile ∈ tiles (created link.trace.emitted))
    (starts : tile.1 ≤ link.sender.ackS)
    (reaches : link.sender.ackS < tile.1 + tile.2.lengthInSequenceSpace) {ms : Nat}
    (expires : link.sender.rto.toNat ≤ ms) :
    PutsOut link (link.next (.sender (.tick ms))) tile.2 := by
  obtain ⟨key, oldest⟩ := joint.oldest_unique placed starts reaches
  have stop : _ ≤ link.sender.nextSeqno := joint.recorded.ledger.bounds placed
  have running : link.sender.start = true :=
    joint.recorded.stock.start_iff.mpr (show link.sender.ackS < link.sender.nextSeqno by omega)
  have out : (link.next (.sender (.tick ms))).sender.segmentsOut =
      link.sender.segmentsOut ++ [tile.2] :=
    congrArg TCPSender.segmentsOut (TCPSender.tick_expired running expires oldest)
  unfold PutsOut
  rw [out, List.drop_left]
  exact List.mem_singleton_self _

theorem Joint.output_length {link : Link} (joint : Joint setup link)
    (bounded : Bounded setup link) :
    link.output.length = link.receiver.streamOut.bytesWritten := by
  have correct := joint.correct bounded
  have within : link.receiver.streamOut.bytesWritten ≤ link.sent.length := correct.within
  have output : link.output = link.sent.take link.receiver.streamOut.bytesWritten :=
    correct.output
  rw [output, List.length_take, Nat.min_eq_left within]

theorem Joint.written_of_level {link later : Link} (joint : Joint setup later)
    (grows : Grows link later) (level : progress later.session = progress link.session) :
    later.receiver.streamOut.bytesWritten = link.receiver.streamOut.bytesWritten := by
  have written : link.session.receiver.streamOut.bytesWritten ≤
      later.session.receiver.streamOut.bytesWritten := grows.written
  change later.session.receiver.streamOut.bytesWritten =
    link.session.receiver.streamOut.bytesWritten
  cases arrived : later.session.synArrived with
  | false =>
      have phase := joint.tracked.phase
      rw [arrived] at phase
      have untouched : later.session.receiver.streamOut.bytesWritten = 0 := phase.untouched
      omega
  | true =>
      have closed : (if link.session.receiver.streamOut.inputEnded then 1 else 0) ≤
          if later.session.receiver.streamOut.inputEnded then 1 else 0 := by
        split
        next ended => exact Nat.le_of_eq (if_pos (grows.closed ended)).symm
        next => exact Nat.zero_le _
      rw [progress, arrived, if_pos rfl] at level
      have before : link.session.synArrived = true := arrived_of_progress (by omega)
      rw [progress, before, if_pos rfl] at level
      omega

theorem Joint.window_of_drained {link later : Link} (joint : Joint setup link)
    (bounded : Bounded setup link) (joint' : Joint setup later)
    (bounded' : Bounded setup later) (grows : Grows link later)
    (drained : link.receiver.streamOut.bts = [])
    (level : progress later.session = progress link.session) :
    0 < later.receiver.windowSize := by
  have window : later.receiver.windowSize = setup.recvCapacity -
      (later.receiver.streamOut.bytesWritten - later.receiver.streamOut.bytesRead) :=
    (joint'.correct bounded').window
  have counted : later.receiver.streamOut.bytesWritten =
      later.receiver.streamOut.bytesRead + later.receiver.streamOut.bts.length :=
    joint'.tracked.sound.valid.counted
  have before := joint.output_length bounded
  have after := joint'.output_length bounded'
  have same := joint'.written_of_level grows level
  have consumed := grows.consumed.length_le
  rw [output, drained, List.append_nil] at before
  rw [output, List.length_append] at after
  have positive := bounded.positive
  omega

theorem Joint.arrival_advances {link later : Link} (joint : Joint setup link)
    (bounded : Bounded setup link) (joint' : Joint setup later)
    (bounded' : Bounded setup later) (grows : Grows link later)
    (drained : link.receiver.streamOut.bts = []) {tile : Nat × TCPSegment}
    (placed : tile ∈ tiles (created later.trace.emitted))
    (starts : tile.1 ≤ later.sender.ackS)
    (reaches : later.sender.ackS < tile.1 + tile.2.lengthInSequenceSpace)
    (waiting : later.sender.ackS = link.sender.ackS) :
    later.sender.ackS < progress (later.next (.receiver (.segment tile.2))).session := by
  by_cases ahead : later.sender.ackS < progress later.session
  · exact Nat.lt_of_lt_of_le ahead (progress_le_next later.session _)
  · have acked := joint.acked
    have onward := grows.progress
    have level : progress later.session = progress link.session := by omega
    exact joint'.oldest_advances bounded'
      (joint.window_of_drained bounded joint' bounded' grows drained level)
      placed starts reaches

theorem Joint.late_ack_advances {link later : Link} (joint : Joint setup link)
    (bounded : Bounded setup link) (joint' : Joint setup later)
    (bounded' : Bounded setup later) (grows : Grows link later)
    {ack : WrappingInt32 × UInt16} (reported : ack ∈ report link.receiver) :
    progress link.session ≤ (later.next (.sender (.ackReceived ack.1 ack.2))).sender.ackS := by
  obtain ⟨number, _⟩ := report_number bounded.small joint.tracked reported
  obtain ⟨unwrapped, possible⟩ := joint'.unwrap_ack bounded' grows.progress
  change _ ≤ (later.sender.ackReceived ack.1 ack.2).ackS
  rw [number, TCPSender.ackReceived_eq unwrapped possible]
  exact Nat.le_max_right _ _

theorem Joint.exists_report {link : Link} (joint : Joint setup link)
    (bounded : Bounded setup link) (begun : 0 < progress link.session) :
    ∃ ack, ack ∈ report link.receiver := by
  have ackno := (joint.correct bounded).ackno (arrived_of_progress begun)
  rw [report, show link.receiver.ackno = _ from ackno]
  exact ⟨_, List.mem_singleton_self _⟩

theorem Grows.placed {link later : Link} (grows : Grows link later) {tile : Nat × TCPSegment}
    (placed : tile ∈ tiles (created link.trace.emitted)) :
    tile ∈ tiles (created later.trace.emitted) := by
  obtain ⟨rest, split⟩ := grows.made
  rw [← split, tiles, Tiling.place_append]
  exact List.mem_append_left _ placed

instance : Finite (WrappingInt32 × UInt16) :=
  Finite.of_injective (fun ack => (ack.1.rawValue.toFin, ack.2.toFin)) (by
    rintro ⟨⟨number⟩, windowSize⟩ ⟨⟨other⟩, otherSize⟩ same
    obtain ⟨first, second⟩ := Prod.mk.inj same
    obtain rfl : number = other := UInt32.toFin_inj.mp first
    obtain rfl : windowSize = otherSize := UInt16.toFin_inj.mp second
    rfl)

/-- From `time` on the sender waits for `tile` and nothing more is acknowledged. -/
structure Stuck (execution : Execution (links setup)) (time : Nat)
    (tile : Nat × TCPSegment) : Prop where
  level : ∀ later ≥ time,
    (execution.state later).sender.ackS = (execution.state time).sender.ackS
  placed : ∀ later ≥ time, tile ∈ tiles (created (execution.state later).trace.emitted)
  starts : tile.1 ≤ (execution.state time).sender.ackS
  reaches : (execution.state time).sender.ackS < tile.1 + tile.2.lengthInSequenceSpace

theorem exists_stuck {time : Nat} (joint : Joint setup (execution.state time))
    (inFlight : (execution.state time).sender.ackS < (execution.state time).sender.nextSeqno)
    (never : ¬ ∃ later ≥ time,
      (execution.state time).sender.ackS < (execution.state later).sender.ackS) :
    ∃ tile, Stuck execution time tile := by
  obtain ⟨entry, first⟩ := joint.recorded.stock.exists_oldest joint.recorded.ledger inFlight
  obtain ⟨tile, placed, _, starts, reaches⟩ := joint.recorded.stock.oldest first
  refine ⟨tile, ?_, ?_, starts, reaches⟩
  · intro later after
    refine Nat.le_antisymm (Nat.le_of_not_lt ?_) (grows_after execution after).acked
    intro higher
    exact never ⟨later, after, higher⟩
  · intro later after
    exact (grows_after execution after).placed placed

section

variable {time : Nat} {tile : Nat × TCPSegment}

theorem Stuck.sends (stuck : Stuck execution time tile) (fair : Fair execution)
    (joint : ∀ time, Joint setup (execution.state time)) :
    ∃ᶠ later in atTop,
      PutsOut (execution.state later) (execution.state (later + 1)) tile.2 := by
  -- The oldest segment stays the oldest, so every timeout sends it again.
  obtain ⟨level, placed, starts, reaches⟩ := stuck
  refine (fair.expires.and_eventually (eventually_ge_atTop time)).mono ?_
  rintro later ⟨⟨ms, ticks, expires⟩, after⟩
  rw [execution.follows, ticks]
  rw [← level later after] at starts reaches
  exact (joint later).expired_puts_out (placed later after) starts reaches expires

theorem Stuck.arrives (stuck : Stuck execution time tile) (fair : Fair execution)
    (joint : ∀ time, Joint setup (execution.state time))
    (bounded : ∀ time, Bounded setup (execution.state time)) :
    ∃ later ≥ time,
      (execution.state time).sender.ackS < progress (execution.state later).session := by
  -- A copy gets through after the output was drained, and the receiver moves on.
  obtain ⟨drain, afterTime, len, reads, drains⟩ := frequently_atTop.mp fair.reads time
  obtain ⟨arrival, afterDrain, arrives⟩ :=
    frequently_atTop.mp (fair.segments tile.2 (stuck.sends fair joint)) (drain + 1)
  obtain ⟨level, placed, starts, reaches⟩ := stuck
  have empty : (execution.state (drain + 1)).receiver.streamOut.bts = [] := by
    rw [execution.follows, reads]
    change ((execution.state drain).receiver.readOut len).streamOut.bts = []
    rw [TCPReceiver.readOut_streamOut]
    exact List.drop_of_length_le drains
  have since : time ≤ arrival := by omega
  have waiting : (execution.state arrival).sender.ackS =
      (execution.state (drain + 1)).sender.ackS :=
    (level arrival since).trans (level (drain + 1) (by omega)).symm
  refine ⟨arrival + 1, by omega, ?_⟩
  rw [execution.follows, arrives]
  rw [← level arrival since] at starts reaches ⊢
  exact (joint (drain + 1)).arrival_advances (bounded _) (joint arrival) (bounded _)
    (grows_after execution afterDrain) empty (placed arrival since) starts reaches waiting

end

/-- What a receiver keeps reporting reaches the sender: the answers from some time on are
among finitely many, so one of them is given again and again. -/
theorem Fair.acknowledges (fair : Fair execution)
    (joint : ∀ time, Joint setup (execution.state time))
    (bounded : ∀ time, Bounded setup (execution.state time)) {time : Nat}
    (begun : 0 < progress (execution.state time).session) :
    ∃ later ≥ time,
      progress (execution.state time).session ≤ (execution.state later).sender.ackS := by
  have reports : ∃ᶠ later in atTop, ∃ ack : WrappingInt32 × UInt16,
      ack ∈ report (execution.state later).receiver := by
    refine Eventually.frequently ((eventually_ge_atTop time).mono ?_)
    intro later after
    have onward := (grows_after execution after).progress
    exact (joint later).exists_report (bounded later) (Nat.lt_of_lt_of_le begun onward)
  obtain ⟨ack, reported⟩ := frequently_exists.mp reports
  obtain ⟨answer, afterTime, answers⟩ := frequently_atTop.mp reported time
  obtain ⟨delivery, afterAnswer, delivers⟩ :=
    frequently_atTop.mp (fair.acks ack.1 ack.2 reported) answer
  refine ⟨delivery + 1, by omega, ?_⟩
  rw [execution.follows, delivers]
  exact Nat.le_trans (grows_after execution afterTime).progress
    ((joint answer).late_ack_advances (bounded _) (joint delivery) (bounded _)
      (grows_after execution afterAnswer) answers)

/-- What is in flight does not stay unacknowledged forever. -/
theorem Fair.advances (fair : Fair execution)
    (joint : ∀ time, Joint setup (execution.state time))
    (bounded : ∀ time, Bounded setup (execution.state time)) {time : Nat}
    (inFlight : (execution.state time).sender.ackS < (execution.state time).sender.nextSeqno) :
    ∃ later ≥ time,
      (execution.state time).sender.ackS < (execution.state later).sender.ackS := by
  by_contra never
  obtain ⟨tile, stuck⟩ := exists_stuck (joint time) inFlight never
  obtain ⟨arrival, afterTime, ahead⟩ := stuck.arrives fair joint bounded
  obtain ⟨delivery, afterArrival, acked⟩ :=
    fair.acknowledges joint bounded (Nat.lt_of_le_of_lt (Nat.zero_le _) ahead)
  exact never ⟨delivery, Nat.le_trans afterTime afterArrival, Nat.lt_of_lt_of_le ahead acked⟩

/-! ## Rest, again and again -/

theorem Fair.settles (fair : Fair execution)
    (joint : ∀ time, Joint setup (execution.state time))
    (bounded : ∀ time, Bounded setup (execution.state time)) :
    ∃ᶠ time in atTop, Settled (execution.state time).trace.accepted
      (execution.state time).sender.streamIn.inputEnded (execution.state time) := by
  have limited : ∀ time, (execution.state time).sender.ackS ≤ 2 ^ 31 := by
    intro time
    have acked : (execution.state time).sender.ackS ≤ _ := (joint time).recorded.stock.acked
    have next := (joint time).recorded.ledger.nextSeqno_le
    have bytes := (bounded time).bytes
    omega
  refine Execution.frequently_of_rises limited ?_
  intro time
  obtain ⟨fill, after, fills⟩ := frequently_atTop.mp fair.fills time
  have filled : execution.state (fill + 1) = (execution.state fill).next (.sender .fillWindow) := by
    rw [execution.follows, fills]
    rfl
  rcases (joint fill).filled (bounded fill) with inFlight | settled
  · rw [← filled] at inFlight
    obtain ⟨later, onward, higher⟩ := fair.advances joint bounded inFlight
    have before := (grows_after execution (show time ≤ fill + 1 by omega)).acked
    exact Or.inr ⟨later, by omega, by omega⟩
  · obtain ⟨accepted, endFlag⟩ :=
      Helpful.keeps (show (execution.state fill).Helpful (.sender .fillWindow) from trivial)
    refine Or.inl ⟨fill + 1, by omega, ?_⟩
    rw [filled, accepted, show (Link.sender _).streamIn.inputEnded = _ from endFlag]
    exact settled

theorem drained_consumed {link : Link} {len : Nat}
    (drains : link.receiver.streamOut.bufferSize ≤ len) :
    (link.next (.receiver (.read len))).session.consumed = link.output := by
  change link.session.consumed ++ (link.session.receiver.streamOut.read len).1 = _
  rw [ByteStream.read_eq]
  exact congrArg _ (List.take_of_length_le drains)

theorem eq_finAcked_of_rank {summary : TCPSenderStateSummary}
    (last : TCPSenderStateSummary.finAcked.rank ≤ summary.rank) : summary = .finAcked := by
  cases summary with
  | finAcked => rfl
  | error | closed | synSent | synAcked | finSent => exact absurd last (by decide)

theorem Joint.done_next {link : Link} {action : Action} (joint : Joint setup link)
    (plain : Plain link) (joint' : Joint setup (link.next action))
    (plain' : Plain (link.next action))
    (done : link.receiver.streamOut.inputEnded = true ∧ link.sender.stateSummary = .finAcked) :
    (link.next action).receiver.streamOut.inputEnded = true ∧
      (link.next action).sender.stateSummary = .finAcked := by
  refine ⟨(grows_next link action).closed done.1, ?_⟩
  cases action with
  | sender op =>
      have forward := joint.sender_forward plain joint' plain'
      rw [done.2] at forward
      exact eq_finAcked_of_rank forward
  | receiver event => exact done.2

end

/-- Over a fair network, with a writer that stays within the bounds, every byte that is
accepted is read in the end, and a closed connection comes to its end on both sides. -/
theorem fair_link_delivers {setup : Setup} (positive : 0 < setup.recvCapacity)
    (small : setup.recvCapacity < 2 ^ 31) {execution : Execution (links setup)}
    (fair : Fair execution)
    (bytes : ∀ time, (execution.state time).trace.accepted.length < 2 ^ 31 - 2) :
    Delivers execution := by
  have joint : ∀ time, Joint setup (execution.state time) := fun time =>
    links_joint positive small (execution.reachable time) (bytes time)
  have plain : ∀ time, Plain (execution.state time) := fun time =>
    links_plain positive small (execution.reachable time) (bytes time)
  have settles := fair.settles joint fun time => ⟨positive, small, bytes time⟩
  refine ⟨settles, ?_, ?_⟩
  · intro time
    obtain ⟨rest, after, settled⟩ := frequently_atTop.mp settles time
    obtain ⟨read, afterRest, len, reads, drains⟩ := frequently_atTop.mp fair.reads rest
    have there : (execution.state time).trace.accepted <+:
        (execution.state (read + 1)).session.consumed := by
      rw [execution.follows, reads]
      change _ <+: (Link.next _ _).session.consumed
      rw [drained_consumed drains]
      refine (grows_after execution after).accepted.trans ?_
      rw [← settled.output]
      exact (grows_after execution afterRest).output
    refine eventually_atTop.mpr ⟨read + 1, ?_⟩
    intro later onward
    exact there.trans (grows_after execution onward).consumed
  · intro time ended
    obtain ⟨rest, after, settled⟩ := frequently_atTop.mp settles time
    refine Execution.eventually_of_stable
      (settled.closed ((grows_after execution after).ended ended)) ?_
    intro later _ done
    have joint' := joint (later + 1)
    have plain' := plain (later + 1)
    rw [execution.follows] at joint' plain' ⊢
    exact (joint later).done_next (plain later) joint' plain' done

/-! ### An execution that is fair -/

def lossyStart : List Action :=
  [.sender (.write [1, 2, 3]), .sender .endInput, .sender .fillWindow, .sender (.tick 1000),
    .receiver (.segment ⟨{ seqno := ⟨0xfffffffd⟩, syn := true }, .ofString [1]⟩),
    .sender (.ackReceived ⟨0xffffffff⟩ 1), .sender .fillWindow,
    .receiver (.segment ⟨{ seqno := ⟨0xffffffff⟩ }, .ofString [2]⟩), .receiver (.read 2),
    .sender (.ackReceived ⟨0⟩ 2), .sender .fillWindow,
    .receiver (.segment ⟨{ seqno := ⟨0⟩, fin := true }, .ofString [3]⟩), .receiver (.read 1),
    .sender (.ackReceived ⟨2⟩ 2)]

def lossyLoop : Nat → Action
  | 0 => .sender .fillWindow
  | 1 => .receiver (.read 2)
  | 2 => .sender (.tick 1000)
  | _ => .sender (.ackReceived ⟨2⟩ 2)

def lossyOp (time : Nat) : Action :=
  lossyStart.getD time (lossyLoop ((time - 14) % 4))

def lossyRest : Link :=
  (links shortSetup).run (links shortSetup).init lossyStart

theorem lossyOp_loop {time : Nat} (after : 14 ≤ time) :
    lossyOp time = lossyLoop ((time - 14) % 4) :=
  List.getD_eq_default _ _ after

structure AtRest (link : Link) : Prop where
  trace : link.trace = lossyRest.trace
  session : link.session = lossyRest.session
  acks : (⟨2⟩, 2) ∈ link.acks

theorem AtRest.next {link : Link} (atRest : AtRest link) (phase : Nat) :
    AtRest (link.next (lossyLoop phase)) := by
  obtain ⟨trace, session, acks⟩ := link
  obtain ⟨rfl, rfl, known⟩ := atRest
  match phase with
  | 0 =>
      have same : lossyRest.trace.next .fillWindow = lossyRest.trace := by decide
      exact ⟨same, rfl, List.mem_append_left _ known⟩
  | 1 =>
      have same : lossyRest.session.next (.read 2) = lossyRest.session := by decide
      exact ⟨rfl, same, List.mem_append_left _ known⟩
  | 2 =>
      have same : lossyRest.trace.next (.tick 1000) = lossyRest.trace := by decide
      exact ⟨same, rfl, List.mem_append_left _ known⟩
  | _ + 3 =>
      have same : lossyRest.trace.next (.ackReceived ⟨2⟩ 2) = lossyRest.trace := by
        decide +kernel
      exact ⟨same, rfl, List.mem_append_left _ known⟩

theorem lossy_atRest {time : Nat} (after : 14 ≤ time) :
    AtRest (Execution.unroll (links shortSetup) lossyOp time) := by
  induction time, after using Nat.le_induction with
  | base => exact ⟨by decide, by decide, by decide⟩
  | succ time after induction =>
      rw [Execution.unroll, lossyOp_loop after]
      exact induction.next _

theorem lossy_permitted (time : Nat) :
    (links shortSetup).guard (Execution.unroll (links shortSetup) lossyOp time)
      (lossyOp time) := by
  by_cases early : time < 14
  · revert early
    revert time
    decide
  · have after : 14 ≤ time := Nat.le_of_not_lt early
    have atRest := lossy_atRest after
    rw [lossyOp_loop after]
    match (time - 14) % 4 with
    | 0 | 1 | 2 => exact trivial
    | _ + 3 => exact atRest.acks

def lossy : Execution (links shortSetup) :=
  .ofOps _ lossyOp lossy_permitted

theorem lossy_phase (phase : Nat) (inside : phase < 4) :
    ∃ᶠ time in atTop, 14 ≤ time ∧ lossy.op time = lossyLoop phase := by
  rw [frequently_atTop]
  intro time
  refine ⟨4 * time + phase + 14, by omega, by omega, ?_⟩
  rw [show lossy.op = lossyOp from rfl, lossyOp_loop (by omega), Nat.add_sub_cancel,
    Nat.mul_add_mod, Nat.mod_eq_of_lt inside]

theorem lossy_fair : Fair lossy where
  fills := (lossy_phase 0 (by decide)).mono fun _ phase => phase.2
  reads := by
    refine (lossy_phase 1 (by decide)).mono ?_
    rintro time ⟨after, phase⟩
    refine ⟨2, phase, ?_⟩
    have atRest : AtRest (lossy.state time) := lossy_atRest after
    rw [receiver, atRest.session]
    decide
  expires := by
    refine (lossy_phase 2 (by decide)).mono ?_
    rintro time ⟨after, phase⟩
    refine ⟨1000, phase, ?_⟩
    have atRest : AtRest (lossy.state time) := lossy_atRest after
    rw [sender, atRest.trace]
    decide
  segments := by
    intro seg often
    obtain ⟨time, after, out⟩ := frequently_atTop.mp often 14
    have atRest : AtRest (lossy.state time) := lossy_atRest after
    have still : AtRest (lossy.state (time + 1)) := lossy_atRest (Nat.le_succ_of_le after)
    rw [PutsOut, sender, sender, atRest.trace, still.trace, List.drop_length] at out
    exact absurd out List.not_mem_nil
  acks := by
    intro ackno windowSize often
    obtain ⟨time, after, reported⟩ := frequently_atTop.mp often 14
    have atRest : AtRest (lossy.state time) := lossy_atRest after
    have last : report lossyRest.session.receiver = [(⟨2⟩, 2)] := by decide
    rw [receiver, atRest.session, last, List.mem_singleton, Prod.mk.injEq] at reported
    obtain ⟨rfl, rfl⟩ := reported
    exact (lossy_phase 3 (by decide)).mono fun _ phase => phase.2

theorem fair_link_delivers_lossy : Fair lossy ∧ Delivers lossy := by
  refine ⟨lossy_fair, fair_link_delivers (by decide) (by decide) lossy_fair ?_⟩
  intro time
  by_cases early : time < 14
  · revert early
    revert time
    decide
  · have atRest : AtRest (lossy.state time) := lossy_atRest (Nat.le_of_not_lt early)
    rw [atRest.trace]
    decide

end Sponge.Link
