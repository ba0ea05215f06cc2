import Sponge.Link
import Sponge.TCPHelpers.Wire

namespace Sponge

/-! The link over bytes: segments travel as `serialize` writes them, and the receiver sees
what `parse` makes of what arrives. -/

theorem TCPReceiver.segmentReceived_congr (receiver : TCPReceiver) {seg other : TCPSegment}
    (syn : other.header.syn = seg.header.syn) (fin : other.header.fin = seg.header.fin)
    (seqno : other.header.seqno = seg.header.seqno)
    (payload : other.payload.str = seg.payload.str) :
    receiver.segmentReceived other = receiver.segmentReceived seg := by
  have locate : receiver.locate other = receiver.locate seg := by
    rw [TCPReceiver.locate, TCPReceiver.locate, syn, seqno]
  have length : other.lengthInSequenceSpace = seg.lengthInSequenceSpace := by
    rw [TCPSegment.lengthInSequenceSpace, TCPSegment.lengthInSequenceSpace, syn, fin, payload]
  have admission : (receiver.locate other).admission other =
      (receiver.locate seg).admission seg := by
    rw [locate, TCPReceiver.admission, TCPReceiver.admission, length, syn, fin]
  have deliver (index : Nat) : (receiver.locate other).deliver other index =
      (receiver.locate seg).deliver seg index := by
    have copy : other.payload.copy = seg.payload.copy := payload
    rw [locate, TCPReceiver.deliver, TCPReceiver.deliver, copy, fin]
  rw [TCPReceiver.segmentReceived, TCPReceiver.segmentReceived, syn]
  dsimp only
  rw [admission, locate]
  rw [locate] at deliver
  rw [funext deliver]

namespace TCPSegment

structure Restores (segment parsed : TCPSegment) : Prop where
  header : parsed.header = { segment.header with cksum := parsed.header.cksum }
  payload : parsed.payload.str = segment.payload.str

section

variable {segment parsed : TCPSegment} (restores : Restores segment parsed)

include restores

theorem Restores.syn : parsed.header.syn = segment.header.syn := by
  rw [restores.header]

theorem Restores.segmentReceived (receiver : TCPReceiver) :
    receiver.segmentReceived parsed = receiver.segmentReceived segment := by
  apply receiver.segmentReceived_congr restores.syn
  · rw [restores.header]
  · rw [restores.header]
  · exact restores.payload

end

theorem parse_wire {segment : TCPSegment} (minimal : 5 ≤ segment.header.doff)
    (nibble : segment.header.doff ≤ 15) (datagramLayerChecksum : UInt32)
    (receiver : TCPSegment) :
    ∃ parsed,
      receiver.parse
        (.ofString (segment.header.wire (segment.checksum datagramLayerChecksum) ++
          segment.payload.str)) datagramLayerChecksum = .ok (.noError, parsed) ∧
      Restores segment parsed := by
  have length := TCPHeader.length_wire minimal (segment.checksum datagramLayerChecksum)
  obtain ⟨rest, parsed, consumed⟩ := @parse_goodChecksum receiver
    (.ofString (segment.header.wire (segment.checksum datagramLayerChecksum) ++
      segment.payload.str)) datagramLayerChecksum (value_checksum _ _)
  have enough : 5 ≤ segment.header.doff.toNat := minimal
  rw [← doff_decoded, Buffer.str_ofString, TCPHeader.decoded_wire nibble] at consumed
  rw [Buffer.str_ofString, TCPHeader.decoded_wire nibble] at parsed
  dsimp only at consumed
  rw [Nat.max_eq_right (by omega)] at consumed
  cases consumed with
  | short _ lacking =>
      rw [List.length_append] at lacking
      omega
  | within error _ remaining =>
      rw [error] at parsed
      refine ⟨_, parsed, rfl, ?_⟩
      rw [remaining, ← length, List.drop_left]

end TCPSegment

namespace Link

open InternetChecksum (wordAt)
open TCPSender (Recorded created)

/-! ## Every segment of the sender can be written -/

/-- Nobody sets the data offset: the headers that go out have no options. -/
structure Written (setup : Setup) (link : Link) : Prop where
  recorded : Recorded setup.isn link.trace
  offset : ∀ seg ∈ link.sender.segmentsOut, seg.header.doff = 5

theorem offset_perform {isn : WrappingInt32} {trace : TCPSender.Trace}
    (recorded : Recorded isn trace)
    (offset : ∀ seg ∈ trace.sender.segmentsOut, seg.header.doff = 5) (op : TCPSender.Op) :
    ∀ seg ∈ (trace.sender.perform op).segmentsOut, seg.header.doff = 5 := by
  cases op with
  | write data => exact offset
  | endInput => exact offset
  | fillWindow =>
      refine TCPSender.fillWindow_invariant
        (fun other => ∀ seg ∈ other.segmentsOut, seg.header.doff = 5) ?_ offset
      intro other offset _ _ seg member
      rw [TCPSender.turn_segmentsOut, TCPSender.makeSegment_eq] at member
      rcases List.mem_append.mp member with old | new
      · exact offset seg old
      · rw [List.mem_singleton.mp new]
  | ackReceived ackno windowSize =>
      obtain ⟨_, _, _, _, out⟩ := trace.sender.ackReceived_frame ackno windowSize
      change ∀ seg ∈ (trace.sender.ackReceived ackno windowSize).segmentsOut, _
      rwa [out]
  | tick ms =>
      obtain ⟨new, _, _, _, ticked, source⟩ := trace.sender.tick_cases ms
      change ∀ seg ∈ (trace.sender.tick ms).segmentsOut, _
      rw [ticked]
      intro seg member
      rcases List.mem_append.mp member with old | copied
      · exact offset seg old
      · rcases source with rfl | ⟨entry, oldest, rfl⟩
        · cases copied
        · rw [List.mem_singleton.mp copied]
          obtain ⟨tile, placed, rfl⟩ :=
            recorded.stock.mem_created (List.mem_of_mem_head? oldest)
          obtain ⟨emission, member, same⟩ := List.mem_map.mp (TCPSender.mem_of_tile placed)
          apply offset
          change tile.2 ∈ trace.sender.segmentsOut
          rw [← recorded.queue, ← same]
          exact List.mem_map_of_mem (List.mem_of_mem_filter member)
  | sendEmptySegment =>
      intro seg member
      rcases List.mem_append.mp member with old | new
      · exact offset seg old
      · rw [List.mem_singleton.mp new]
        rfl

theorem links_written {setup : Setup} {link : Link} (reached : (links setup).Reachable link) :
    Written setup link := by
  refine Machine.invariant (Written setup) ?_ ?_ reached
  · exact ⟨TCPSender.recorded_new _ _ _, fun _ member => by cases member⟩
  · intro link action _ written
    cases action with
    | sender op =>
        exact ⟨written.recorded.next op, offset_perform written.recorded written.offset op⟩
    | receiver event => exact ⟨written.recorded, written.offset⟩

/-! ## The machine -/

/-- What may become of a datagram: it arrives as it was sent, or damaged within one word,
or cut down to less than a header. -/
inductive Arrival (sent : List Byte) : List Byte → Prop where
  | intact : Arrival sent sent
  | damaged {got : List Byte} (k : Nat) (length : got.length = sent.length)
      (outside : ∀ i : Nat, i / 2 ≠ k → got[i]? = sent[i]?) (changed : got ≠ sent)
      (notZeros : ¬(wordAt sent k = 0 ∧ wordAt got k = 0xffff))
      (notOnes : ¬(wordAt sent k = 0xffff ∧ wordAt got k = 0)) : Arrival sent got
  | runt {got : List Byte} (short : got.length < TCPHeader.length) : Arrival sent got

inductive WireAction where
  | sender (op : TCPSender.Op)
  | datagram (bytes : List Byte)
  | read (len : Nat)

/-- The receiver's side of the wire: what does not parse is dropped. -/
def receive (datagramLayerChecksum : UInt32) (link : Link) (bytes : List Byte) : Link :=
  match TCPSegment.parse {} (.ofString bytes) datagramLayerChecksum with
  | .ok (.noError, seg) => link.next (.receiver (.segment seg))
  | _ => link

def wireNext (datagramLayerChecksum : UInt32) (link : Link) : WireAction → Link
  | .sender op => link.next (.sender op)
  | .datagram bytes => receive datagramLayerChecksum link bytes
  | .read len => link.next (.receiver (.read len))

def WireAllowed (datagramLayerChecksum : UInt32) (link : Link) : WireAction → Prop
  | .sender op => link.Allowed (.sender op)
  | .datagram bytes => ∃ seg ∈ link.sender.segmentsOut, ∃ list,
      seg.serialize datagramLayerChecksum = .ok list ∧ Arrival list.concatenate bytes
  | .read _ => True

def wires (setup : Setup) (datagramLayerChecksum : UInt32) : Machine Link WireAction where
  init := (links setup).init
  guard := WireAllowed datagramLayerChecksum
  next := wireNext datagramLayerChecksum

/-! ## Refinement -/

section

variable {setup : Setup} {link : Link} {datagramLayerChecksum : UInt32} {seg : TCPSegment}

theorem receive_dropped {bytes : List Byte}
    (dropped : ∀ parsed, TCPSegment.parse {} (.ofString bytes) datagramLayerChecksum ≠
      .ok (.noError, parsed)) : receive datagramLayerChecksum link bytes = link := by
  unfold receive
  split
  next parsed accepted => exact absurd accepted (dropped parsed)
  next => rfl

theorem Written.receive_intact (written : Written setup link)
    (queued : seg ∈ link.sender.segmentsOut) :
    ∃ list, seg.serialize datagramLayerChecksum = .ok list ∧
      ((InternetChecksum.new datagramLayerChecksum).add list.concatenate).value = 0 ∧
      receive datagramLayerChecksum link list.concatenate =
        link.next (.receiver (.segment seg)) := by
  have offset := written.offset seg queued
  have minimal : 5 ≤ seg.header.doff := by rw [offset]; decide
  have nibble : seg.header.doff ≤ 15 := by rw [offset]; decide
  obtain ⟨list, serialized, bytes⟩ := TCPSegment.serialize_eq minimal datagramLayerChecksum
  obtain ⟨parsed, accepted, restores⟩ :=
    TCPSegment.parse_wire minimal nibble datagramLayerChecksum {}
  refine ⟨list, serialized, ?_, ?_⟩
  · rw [bytes, TCPSegment.value_checksum]
  · simp only [receive, bytes, accepted, Link.next, TCPReceiver.Session.next,
      restores.segmentReceived, restores.syn]

theorem receive_runt {bytes : List Byte} (short : bytes.length < TCPHeader.length) :
    receive datagramLayerChecksum link bytes = link := by
  apply receive_dropped
  intro parsed accepted
  have good := TCPSegment.value_of_accepted (fun other => by rw [accepted]; simp)
  obtain ⟨rest, same, consumed⟩ := TCPSegment.parse_goodChecksum {} good
  rw [accepted] at same
  have error : rest.error = .noError := by
    injection same with same
    injection same with error
    exact error.symm
  rw [consumed.noError_iff, Buffer.str_ofString] at error
  have fixedPart : TCPHeader.length = 20 := rfl
  omega

theorem Written.receive_arrival (written : Written setup link)
    (queued : seg ∈ link.sender.segmentsOut) {list : BufferList}
    (serialized : seg.serialize datagramLayerChecksum = .ok list) {bytes : List Byte}
    (arrival : Arrival list.concatenate bytes) :
    receive datagramLayerChecksum link bytes = link.next (.receiver (.segment seg)) ∨
      receive datagramLayerChecksum link bytes = link := by
  obtain ⟨_, same, good, taken⟩ := written.receive_intact queued
  rw [serialized] at same
  cases same
  cases arrival with
  | intact => exact Or.inl taken
  | damaged k length outside changed notZeros notOnes =>
      right
      apply receive_dropped
      intro parsed accepted
      have bad := InternetChecksum.value_of_word_change length outside changed notZeros
        notOnes good
      have refused := @TCPSegment.parse_badChecksum {} (.ofString bytes) _ bad
      rw [refused] at accepted
      cases accepted
  | runt short => exact Or.inr (receive_runt short)

theorem links_of_wires (reached : (wires setup datagramLayerChecksum).Reachable link) :
    (links setup).Reachable link := by
  refine @Machine.Reachable.simulate _ _ (wires setup datagramLayerChecksum) _ _ (links setup)
    id rfl ?_ _ reached
  intro link action abstractly permitted
  have written : Written setup link := links_written abstractly
  cases action with
  | sender op => exact Machine.Reaches.next .refl (Action.sender op) permitted
  | read len => exact Machine.Reaches.next .refl (Action.receiver (.read len)) trivial
  | datagram bytes =>
      obtain ⟨seg, queued, list, serialized, arrival⟩ := permitted
      change (links setup).Reaches link (receive datagramLayerChecksum link bytes)
      rcases written.receive_arrival queued serialized arrival with taken | dropped
      · rw [taken]
        exact Machine.Reaches.next .refl (Action.receiver (.segment seg)) queued
      · rw [dropped]
        exact .refl

/-- The link over bytes and the link over segments reach the same states: writing and
parsing lose nothing, and what the network damages is as good as lost. -/
theorem wires_reachable_iff (setup : Setup) (datagramLayerChecksum : UInt32) (link : Link) :
    (wires setup datagramLayerChecksum).Reachable link ↔ (links setup).Reachable link := by
  constructor
  · exact links_of_wires
  · intro reached
    refine @Machine.Reachable.simulate _ _ (links setup) _ _
      (wires setup datagramLayerChecksum) id rfl ?_ _ reached
    intro link action concretely permitted
    have written := links_written (links_of_wires concretely)
    match action with
    | .sender op => exact Machine.Reaches.next .refl (WireAction.sender op) permitted
    | .receiver (.read len) => exact Machine.Reaches.next .refl (WireAction.read len) trivial
    | .receiver (.segment seg) =>
        obtain ⟨list, serialized, _, taken⟩ :=
          @Written.receive_intact setup link datagramLayerChecksum seg written permitted
        have arrives : WireAllowed datagramLayerChecksum link (.datagram list.concatenate) :=
          ⟨seg, permitted, list, serialized, .intact⟩
        change (wires setup datagramLayerChecksum).Reaches link
          (link.next (.receiver (.segment seg)))
        rw [← taken]
        exact Machine.Reaches.next .refl (WireAction.datagram list.concatenate) arrives

end

end Link

end Sponge
