import Sponge.Link.FlowControl
import Sponge.Link.Progress

namespace Sponge.Link

open TCPSender (created payloads tiles)
open TCPReceiver (Consistent)
open Tiling (extent)

/-! A connection over a network that loses nothing and keeps the order needs no timer. -/

def deliverAll (link : Link) (segs : List TCPSegment) : Link :=
  segs.foldl (fun link seg => link.next (.receiver (.segment seg))) link

def answerAll (link : Link) (acks : List (WrappingInt32 × UInt16)) : Link :=
  acks.foldl (fun link ack => link.next (.sender (.ackReceived ack.1 ack.2))) link

/-- `fill_window`, and everything it created has arrived. -/
def arrival (link : Link) : Link :=
  (link.next (.sender .fillWindow)).deliverAll link.sender.newSegments

def exchange (link : Link) : Link :=
  link.arrival.answerAll (report link.arrival.receiver)

inductive Turn where
  | write (data : List Byte)
  | endInput
  | read (len : Nat)
  | exchange
  deriving DecidableEq

def exchanges (setup : Setup) : Machine Link Turn where
  init := (links setup).init
  guard link
    | .write _ => link.sender.streamIn.inputEnded = false
    | _ => True
  next link
    | .write data => link.next (.sender (.write data))
    | .endInput => link.next (.sender .endInput)
    | .read len => link.next (.receiver (.read len))
    | .exchange => link.exchange

instance (setup : Setup) (link : Link) (turn : Turn) :
    Decidable ((exchanges setup).guard link turn) :=
  match turn with
  | .write _ => inferInstanceAs (Decidable (_ = false))
  | .endInput | .read _ | .exchange => .isTrue trivial

section

variable {setup : Setup} {link : Link}

/-! ## What arrives in order is taken -/

theorem Joint.queued (joint : Joint setup link) {seg : TCPSegment}
    (member : seg ∈ created link.trace.emitted) : seg ∈ link.sender.segmentsOut := by
  change seg ∈ link.trace.sender.segmentsOut
  rw [← joint.recorded.queue]
  obtain ⟨emission, inside, rfl⟩ := List.mem_map.mp member
  exact List.mem_map_of_mem (List.mem_filter.mp inside).1

theorem Joint.data_tile (joint : Joint setup link) (bounded : Bounded setup link)
    {tile : Nat × TCPSegment} (placed : tile ∈ tiles (created link.trace.emitted))
    (data : tile.2.header.syn = false) :
    ∃ index, tile.1 = index + 1 ∧ Consistent setup.isn link.sent index tile.2 ∧
      index < 2 ^ 31 ∧ tile.2.payload.str.length < 2 ^ 31 := by
  obtain ⟨front, back, parts, position⟩ := Tiling.split_of_mem_place _ placed
  have ledger := joint.recorded.ledger
  have small : tile.2.payload.str.length ≤ 1452 := ledger.small _ (TCPSender.mem_of_tile placed)
  have length := sent_length_le joint
  have bytes := bounded.bytes
  unfold sent at length ⊢
  rw [parts] at ledger length ⊢
  obtain ⟨_, _, _, syn, _⟩ := ledger.split
  have later : front ≠ [] := fun first => by simp [syn.mpr first] at data
  have extent := ledger.extent_front
  have consistent := consistent_of_ledger ledger
  have inside : (payloads front).length ≤ (payloads (front ++ tile.2 :: back)).length := by
    simp [payloads]
  rw [joint.recorded.number] at consistent
  rw [if_neg later] at extent
  exact ⟨_, by omega, consistent, by omega, by omega⟩

theorem Joint.takes (joint : Joint setup link) (bounded : Bounded setup link)
    {tile : Nat × TCPSegment} (placed : tile ∈ tiles (created link.trace.emitted))
    (starts : tile.1 ≤ progress link.session)
    (fits : tile.1 + tile.2.lengthInSequenceSpace ≤ link.rightEdge) :
    tile.1 + tile.2.lengthInSequenceSpace ≤
      progress (link.session.next (.segment tile.2)) := by
  have ledger := joint.recorded.ledger
  have queued := joint.queued (TCPSender.mem_of_tile placed)
  have after := joint.segment bounded queued
  have grows := progress_le_next link.session (.segment tile.2)
  cases syn : tile.2.header.syn with
  | true =>
      -- the SYN brings its byte along
      have zero : tile.1 = 0 := by
        rw [ledger.syn tile placed, decide_eq_true_eq] at syn
        exact syn
      obtain ⟨first, rest, split⟩ :=
        List.exists_cons_of_ne_nil (List.ne_nil_of_mem (TCPSender.mem_of_tile placed))
      obtain rfl : tile.2 = first := joint.eq_first queued syn split
      have arrived : (link.session.next (.segment tile.2)).synArrived = true :=
        Bool.or_eq_true_iff.mpr (Or.inr syn)
      have greeted : _ ≤ (link.session.next (.segment tile.2)).receiver.streamOut.bytesWritten :=
        after.greeted arrived _ rest split
      have noFin := (joint.opening.first _ rest split).2
      rw [zero, progress, if_pos arrived, TCPSegment.lengthInSequenceSpace, syn, noFin]
      simp only [if_true, Bool.false_eq_true, if_false]
      omega
  | false =>
      by_cases behind : tile.1 + tile.2.lengthInSequenceSpace ≤ progress link.session
      · exact Nat.le_trans behind grows
      obtain ⟨index, position, consistent, near, small⟩ := joint.data_tile bounded placed syn
      have arrived := @arrived_of_progress link.session (by omega)
      have phase := joint.tracked.phase
      rw [arrived, if_pos rfl] at phase
      rcases phase with receiving | finished
      · have running := receiving.running
        have written := receiving.written_le
        have length := sent_length_le joint
        have bytes := bounded.bytes
        rw [progress, arrived, if_pos rfl, running] at starts behind
        unfold rightEdge receiver at fits
        have extent : tile.2.lengthInSequenceSpace =
            tile.2.payload.str.length + (if tile.2.header.fin then 1 else 0) := by
          rw [TCPSegment.lengthInSequenceSpace, syn]
          rfl
        simp only [Bool.false_eq_true, if_false, Nat.add_zero] at starts behind
        obtain ⟨whole, ended⟩ := receiving.takes consistent
          ⟨joint.tracked.room ▸ bounded.small, small, by omega⟩ syn
          (unwrap_wrap setup.isn (by omega) (by omega) (by omega)) (by omega) (by omega)
          (by omega)
        have still : (link.session.next (.segment tile.2)).synArrived = true :=
          Bool.or_eq_true_iff.mpr (Or.inl arrived)
        rw [progress, if_pos still, extent]
        change _ ≤ 1 + (link.session.receiver.segmentReceived tile.2).streamOut.bytesWritten +
          (if (link.session.receiver.segmentReceived tile.2).streamOut.inputEnded then 1 else 0)
        split at extent
        next fin =>
          rw [if_pos fin, if_pos (ended fin)]
          omega
        next noFin =>
          rw [if_neg noFin]
          omega
      · have same := joint.progress_of_ended bounded arrived finished.complete.ended
        have stop : _ ≤ link.sender.nextSeqno := ledger.bounds placed
        omega

theorem reaches_next {action : Action} (allowed : link.Allowed action)
    (current : link.Current action) :
    ((links setup).restrict Current).Reaches link (link.next action) :=
  @Machine.Reaches.next _ _ ((links setup).restrict Current) _ _ .refl action
    ⟨allowed, current⟩

theorem report_subset_next (link : Link) (action : Action) :
    report (link.next action).receiver ⊆ (link.next action).acks := by
  cases action with
  | sender op => exact List.subset_append_right _ _
  | receiver event => exact List.subset_append_right _ _

theorem report_subset_deliverAll (noted : report link.receiver ⊆ link.acks)
    (segs : List TCPSegment) :
    report (link.deliverAll segs).receiver ⊆ (link.deliverAll segs).acks := by
  induction segs generalizing link with
  | nil => exact noted
  | cons seg rest induction => exact induction (report_subset_next link _)

theorem Joint.deliverAll (joint : Joint setup link) (bounded : Bounded setup link)
    (fits : link.sender.nextSeqno ≤ link.rightEdge) {front back : List TCPSegment}
    (split : created link.trace.emitted = front ++ back)
    (reached : extent TCPSegment.lengthInSequenceSpace front ≤ progress link.session) :
    ((links setup).restrict Current).Reaches link (link.deliverAll back) ∧
      Joint setup (link.deliverAll back) ∧ (link.deliverAll back).trace = link.trace ∧
      link.sender.nextSeqno ≤ progress (link.deliverAll back).session := by
  induction back generalizing link front with
  | nil =>
      refine ⟨.refl, joint, rfl, ?_⟩
      have total : _ = link.sender.nextSeqno := joint.recorded.ledger.total
      rw [split, List.append_nil] at total
      exact Nat.le_trans (Nat.le_of_eq total.symm) reached
  | cons seg back induction =>
      have placed := TCPSender.tile_of_split front seg back
      rw [← split] at placed
      have queued := joint.queued (TCPSender.mem_of_tile placed)
      have stop : _ ≤ link.sender.nextSeqno := joint.recorded.ledger.bounds placed
      have taken := joint.takes bounded placed reached (Nat.le_trans stop fits)
      have after := joint.segment bounded queued
      have edge := joint.rightEdge_le after
      have split' : created link.trace.emitted = (front ++ [seg]) ++ back := by
        rw [List.append_assoc]
        exact split
      have reached' : extent TCPSegment.lengthInSequenceSpace (front ++ [seg]) ≤
          progress (link.session.next (.segment seg)) := by
        rw [Tiling.extent_append, Tiling.extent_cons, Tiling.extent_nil]
        exact taken
      obtain ⟨onward, final, same, level⟩ := induction after
        ⟨bounded.positive, bounded.small, bounded.bytes⟩ (Nat.le_trans fits edge) split' reached'
      have first : ((links setup).restrict Current).Reaches link
          (link.next (.receiver (.segment seg))) := reaches_next queued trivial
      exact ⟨first.trans onward, final, same, level⟩

/-! ## One exchange -/

theorem Joint.answer (joint : Joint setup link) (bounded : Bounded setup link)
    (level : link.sender.nextSeqno ≤ progress link.session)
    (begun : link.sender.nextSeqno ≠ 0) (noted : report link.receiver ⊆ link.acks) :
    ∃ ack, report link.receiver = [ack] ∧
      ((links setup).restrict Current).Reaches link
        (link.next (.sender (.ackReceived ack.1 ack.2))) ∧
      (link.next (.sender (.ackReceived ack.1 ack.2))).sender.ackS = link.sender.nextSeqno := by
  have arrived := @arrived_of_progress link.session (by omega)
  have same := Nat.le_antisymm level (joint.progress_le bounded)
  obtain ⟨unwrapped, possible⟩ := joint.unwrap_ack bounded (Nat.le_refl _)
  have ackno : link.receiver.ackno = some (wrap (progress link.session) setup.isn) := by
    rw [progress, arrived, if_pos rfl]
    exact (joint.correct bounded).ackno arrived
  have reported : report link.receiver =
      [(wrap (progress link.session) setup.isn,
        UInt16.ofNat (min link.receiver.windowSize 65535))] := by
    simp only [report, ackno]
  have current : link.sender.ackS ≤ progress link.session := joint.acked
  refine ⟨_, reported, ?_, ?_⟩
  · apply reaches_next
    · apply noted
      rw [reported]
      exact List.mem_cons_self
    · change link.sender.ackS ≤ unwrap _ _ _
      rw [unwrapped]
      exact current
  · change (link.sender.ackReceived _ _).ackS = _
    rw [TCPSender.ackReceived_eq unwrapped possible, same]
    exact Nat.max_eq_right (same ▸ current)

theorem Joint.arrival (joint : Joint setup link) (bounded : Bounded setup link)
    (level : link.sender.nextSeqno ≤ progress link.session)
    (fits : link.sender.fillWindow.nextSeqno ≤ link.rightEdge) :
    ((links setup).restrict Current).Reaches link link.arrival ∧ Joint setup link.arrival ∧
      link.arrival.trace = link.trace.next .fillWindow ∧
      link.sender.fillWindow.nextSeqno ≤ progress link.arrival.session := by
  have filled := joint.fillWindow bounded
  have bounded' : Bounded setup (link.next (.sender .fillWindow)) :=
    bounded.of_accepted (List.append_nil _)
  obtain ⟨new, out, _⟩ := TCPSender.fillWindow_spec joint.recorded.ledger joint.recorded.stock
  have grown : created (link.next (.sender .fillWindow)).trace.emitted =
      created link.trace.emitted ++ new := created_next out
  have total : _ = link.sender.nextSeqno := joint.recorded.ledger.total
  have created : link.sender.newSegments = new := TCPSender.newSegments_eq out
  obtain ⟨onward, final⟩ := filled.deliverAll bounded'
    (Nat.le_trans fits (joint.rightEdge_le filled)) grown
    (Nat.le_trans (Nat.le_of_eq total) level)
  unfold Link.arrival
  rw [created]
  have first : ((links setup).restrict Current).Reaches link
      (link.next (.sender .fillWindow)) := reaches_next trivial trivial
  exact ⟨first.trans onward, final⟩

/-- From a state in which the receiver has everything, with room for what the window
allows, an exchange leads to such a state again, and nothing is in flight. -/
theorem Joint.exchange (joint : Joint setup link) (bounded : Bounded setup link)
    (windowed : TCPSender.Windowed link.sender)
    (level : link.sender.nextSeqno ≤ progress link.session)
    (fits : link.sender.fillWindow.nextSeqno ≤ link.rightEdge) :
    ((links setup).restrict Current).Reaches link link.exchange ∧
      link.exchange.trace.accepted = link.trace.accepted ∧
      link.exchange.sender.ackS = link.exchange.sender.nextSeqno := by
  obtain ⟨onward, arrived, same, level⟩ := joint.arrival bounded level fits
  have accepted : link.arrival.trace.accepted = link.trace.accepted := by
    rw [same]
    exact List.append_nil _
  have sender : link.arrival.sender = link.sender.fillWindow :=
    congrArg TCPSender.Trace.sender same
  have begun : 0 < link.sender.fillWindow.nextSeqno :=
    (joint.fillWindow bounded).recorded.ledger.fillWindow_nextSeqno_pos windowed
  rw [← sender] at level begun
  obtain ⟨ack, reported, answer, acked⟩ := arrived.answer (bounded.of_accepted accepted) level
    (Nat.pos_iff_ne_zero.mp begun) (report_subset_deliverAll (report_subset_next link _) _)
  have eq : link.exchange = link.arrival.next (.sender (.ackReceived ack.1 ack.2)) := by
    rw [Link.exchange, reported]
    rfl
  obtain ⟨_, _, nextSeqno, _⟩ := link.arrival.sender.ackReceived_frame ack.1 ack.2
  rw [eq]
  refine ⟨onward.trans answer, ?_, acked.trans nextSeqno.symm⟩
  exact (List.append_nil _).trans accepted

/-! ## Whole runs -/

theorem deliverAll_trace (link : Link) (segs : List TCPSegment) :
    (link.deliverAll segs).trace = link.trace := by
  induction segs generalizing link with
  | nil => rfl
  | cons seg rest induction => exact induction (link.next (.receiver (.segment seg)))

theorem windowZero_ackReceived {sender : TCPSender} (closed : sender.windowZero = true)
    (ackno : WrappingInt32) (windowSize : UInt16) :
    (sender.ackReceived ackno windowSize).windowZero = true := by
  rcases sender.ackReceived_cases ackno windowSize with same | ⟨_, unwrapped, possible⟩
  · rwa [same]
  · rw [TCPSender.ackReceived_eq unwrapped possible, closed]
    exact ite_self true

theorem answerAll_keeps (link : Link) (acks : List (WrappingInt32 × UInt16)) :
    (link.answerAll acks).trace.accepted = link.trace.accepted ∧
      (link.sender.windowZero = true → (link.answerAll acks).sender.windowZero = true) := by
  induction acks generalizing link with
  | nil => exact ⟨rfl, id⟩
  | cons ack rest induction =>
      obtain ⟨accepted, closed⟩ := induction (link.next (.sender (.ackReceived ack.1 ack.2)))
      exact ⟨accepted.trans (List.append_nil _),
        fun before => closed (windowZero_ackReceived before ack.1 ack.2)⟩

theorem exchange_keeps (link : Link) :
    link.exchange.trace.accepted = link.trace.accepted ∧
      (link.sender.windowZero = true → link.exchange.sender.windowZero = true) := by
  obtain ⟨accepted, closed⟩ :=
    link.arrival.answerAll_keeps (report link.arrival.receiver)
  obtain ⟨_, _, _, _, windowZero⟩ := link.sender.fillWindow_timer
  have arrived : link.arrival.trace = link.trace.next .fillWindow := deliverAll_trace _ _
  rw [arrived] at accepted
  refine ⟨accepted.trans (List.append_nil _), ?_⟩
  intro before
  apply closed
  change link.arrival.trace.sender.windowZero = true
  rw [arrived]
  exact windowZero.trans before

/-- The receiver has everything, and the sender knows. -/
structure Synchronised (setup : Setup) (link : Link) : Prop where
  reached : ((links setup).restrict Current).Reachable link
  level : link.sender.ackS = link.sender.nextSeqno

theorem Synchronised.next (synchronised : Synchronised setup link) (action : Action)
    (allowed : link.Allowed action) (current : link.Current action)
    (level : (link.next action).sender.ackS = (link.next action).sender.nextSeqno) :
    Synchronised setup (link.next action) :=
  ⟨synchronised.reached.trans (reaches_next allowed current), level⟩

theorem Synchronised.exchange (synchronised : Synchronised setup link)
    (positive : 0 < setup.recvCapacity) (small : setup.recvCapacity < 2 ^ 31)
    (bytes : link.trace.accepted.length < 2 ^ 31 - 2)
    (opened : link.sender.windowZero = false) : Synchronised setup link.exchange := by
  obtain ⟨reached, level⟩ := synchronised
  have plainly := reached.of_restrict
  have joint := links_joint positive small plainly bytes
  have bounded : Bounded setup link := ⟨positive, small, bytes⟩
  have fits := (links_controlled positive small reached bytes).fillWindow joint bounded
  have noProbe : probe link.sender = 0 := if_neg (by simp [opened])
  rw [noProbe, Nat.add_zero] at fits
  obtain ⟨onward, _, after⟩ := joint.exchange bounded
    (links_plain positive small plainly bytes).windowed (level ▸ joint.acked) fits
  exact ⟨reached.trans onward, after⟩

end

theorem exchanges_synchronised {setup : Setup} (positive : 0 < setup.recvCapacity)
    (small : setup.recvCapacity < 2 ^ 31) {link : Link}
    (reached : (exchanges setup).Reachable link)
    (bytes : link.trace.accepted.length < 2 ^ 31 - 2)
    (opened : link.sender.windowZero = false) : Synchronised setup link := by
  refine Machine.invariant_below
    (fun link => link.sender.windowZero = false → Synchronised setup link)
    (fun link => link.trace.accepted.length) (2 ^ 31 - 2) ?_ ?_ ?_ reached bytes opened
  · intro link turn _
    cases turn with
    | write data => exact accepted_le_next link (.sender (.write data))
    | endInput => exact accepted_le_next link (.sender .endInput)
    | read len => exact Nat.le_refl _
    | exchange => exact Nat.le_of_eq (congrArg List.length (exchange_keeps link).1.symm)
  · exact fun _ => ⟨Machine.reachable_init, rfl⟩
  · intro link turn allowed before _ synchronised opened
    cases turn with
    | write data =>
        have synchronised := synchronised opened
        exact synchronised.next (.sender (.write data)) allowed trivial synchronised.level
    | endInput =>
        have synchronised := synchronised opened
        exact synchronised.next (.sender .endInput) trivial trivial synchronised.level
    | read len =>
        have synchronised := synchronised opened
        exact synchronised.next (.receiver (.read len)) trivial trivial synchronised.level
    | exchange =>
        have openBefore : link.sender.windowZero = false := by
          apply Bool.eq_false_of_not_eq_true
          intro closed
          exact Bool.false_ne_true (opened.symm.trans ((exchange_keeps link).2 closed))
        exact (synchronised openBefore).exchange positive small before openBefore

theorem Joint.output_of_level {setup : Setup} {link : Link} (joint : Joint setup link)
    (bounded : Bounded setup link) (level : link.sender.nextSeqno ≤ progress link.session) :
    link.session.consumed ++ link.receiver.streamOut.bts = link.sent := by
  have correct := joint.correct bounded
  have output : link.session.consumed ++ link.receiver.streamOut.bts = _ := correct.output
  have count : link.sender.nextSeqno = _ := joint.recorded.ledger.count
  have read := joint.recorded.ledger.read
  rw [output]
  apply List.take_of_length_le
  change (payloads (created link.trace.emitted)).length ≤ _
  by_cases ended : link.session.receiver.streamOut.inputEnded = true
  · exact Nat.le_of_eq (correct.ended ended).symm
  have unfinished : ¬link.trace.sender.finSend = true := fun finished =>
    ended (joint.ended_of_level bounded finished level)
  rw [if_neg unfinished] at count
  rw [progress, if_neg ended] at level
  by_cases begun : created link.trace.emitted = []
  · rw [begun]
    exact Nat.zero_le _
  · rw [if_neg begun] at count
    split at level <;> omega

/-- A network that loses nothing and keeps the order: as long as the receiver does not
close its window, nothing is left in flight between exchanges and everything sent has come
out at the other end, without a timeout. -/
theorem lossless_network {setup : Setup} (positive : 0 < setup.recvCapacity)
    (small : setup.recvCapacity < 2 ^ 31) {link : Link}
    (reached : (exchanges setup).Reachable link)
    (bytes : link.trace.accepted.length < 2 ^ 31 - 2)
    (opened : link.sender.windowZero = false) :
    link.sender.bytesInFlight = 0 ∧
      link.session.consumed ++ link.receiver.streamOut.bts = link.sent := by
  obtain ⟨reached, level⟩ := exchanges_synchronised positive small reached bytes opened
  have joint := links_joint positive small reached.of_restrict bytes
  have windowed := (links_plain positive small reached.of_restrict bytes).windowed
  have flight : link.sender.bytesInFlight = _ :=
    windowed.bytesInFlight_eq joint.recorded.stock.acked
  refine ⟨?_, joint.output_of_level ⟨positive, small, bytes⟩ (level ▸ joint.acked)⟩
  rw [flight, level, Nat.sub_self]

theorem lossless_network_two :
    let link := (exchanges shortSetup).run (links shortSetup).init
      [.write [1], .exchange, .read 1, .write [2], .endInput, .exchange]
    link.sender.bytesInFlight = 0 ∧
      link.session.consumed ++ link.receiver.streamOut.bts = link.sent := by
  intro link
  have reached : (exchanges shortSetup).Reachable link :=
    Machine.reachable_run (exchanges shortSetup) _ (by decide)
  exact lossless_network (by decide) (by decide) reached (by decide) (by decide)

end Sponge.Link
