import Sponge.StreamReassembler.Provenance
import Sponge.TCPReceiver.Robustness

namespace Sponge.TCPReceiver

open StreamReassembler (Traced Admissible)

/-! Where the bytes of the output come from when the peer is arbitrary. -/

structure Journal where
  session : Session
  arrived : List TCPSegment := []

def Journal.next (journal : Journal) : Event → Journal
  | .segment seg =>
      { session := journal.session.next (.segment seg)
        arrived := journal.arrived ++ [seg] }
  | .read len => { journal with session := journal.session.next (.read len) }

def journals (capacity : Nat) : Machine Journal Event where
  init := { session := { receiver := new capacity } }
  guard := fun journal => SmallPayload journal.session
  next := Journal.next

instance (capacity : Nat) (journal : Journal) (event : Event) :
    Decidable ((journals capacity).guard journal event) :=
  inferInstanceAs (Decidable (SmallPayload journal.session event))

/-- The segment carries this byte under the sequence number that the position has when
counted from `isn`. -/
def Bears (isn : WrappingInt32) (seg : TCPSegment) (position : Nat) (byte : Byte) : Prop :=
  ∃ offset, seg.payload.str[offset]? = some byte ∧
    wrap (offset + (if seg.header.syn then 1 else 0)) seg.header.seqno =
      wrap (position + 1) isn

/-- The byte at this position arrived in a segment, numbered from a SYN that arrived. -/
def Journal.Delivered (journal : Journal) (position : Nat) (byte : Byte) : Prop :=
  ∃ first ∈ journal.arrived, first.header.syn = true ∧
    ∃ seg ∈ journal.arrived, Bears first.header.seqno seg position byte

def Rooted (arrived : List TCPSegment) (receiver : TCPReceiver) : Prop :=
  receiver.syn = true →
    ∃ first ∈ arrived, first.header.syn = true ∧ receiver.isn = first.header.seqno.rawValue

section

variable {capacity : Nat} {arrived : List TCPSegment} {receiver : TCPReceiver}

theorem Rooted.locate (rooted : Rooted arrived receiver) (seg : TCPSegment) :
    Rooted (arrived ++ [seg]) (receiver.locate seg) := by
  unfold TCPReceiver.locate
  split
  next syn =>
    intro _
    exact ⟨seg, List.mem_append_right _ (List.mem_singleton_self _), syn, rfl⟩
  next =>
    intro started
    obtain ⟨first, member, syn, same⟩ := rooted started
    exact ⟨first, List.mem_append_left _ member, syn, same⟩

theorem Rooted.deliver (rooted : Rooted arrived receiver) (seg : TCPSegment) (index : Nat) :
    Rooted arrived (receiver.deliver seg index) := by
  unfold TCPReceiver.deliver
  dsimp only
  split
  · intro started
    cases started
  · exact rooted

theorem Rooted.segmentReceived (rooted : Rooted arrived receiver) (seg : TCPSegment) :
    Rooted (arrived ++ [seg]) (receiver.segmentReceived seg) := by
  rcases segmentReceived_cases receiver seg with
    ⟨_, ⟨_, _, same⟩ | ⟨_, _, located⟩⟩ | ⟨index, _, _, _, delivered⟩
  · rw [same]
    intro started
    obtain ⟨first, member, syn, number⟩ := rooted started
    exact ⟨first, List.mem_append_left _ member, syn, number⟩
  · rw [located]
    exact rooted.locate seg
  · rw [delivered]
    exact (rooted.locate seg).deliver seg index

theorem locate_begin (receiver : TCPReceiver) (seg : TCPSegment) :
    wrap 1 ⟨(receiver.locate seg).begin⟩ =
      wrap (if seg.header.syn then 1 else 0) seg.header.seqno := by
  unfold TCPReceiver.locate
  split
  · rfl
  · apply WrappingInt32.ext_toNat
    have one : (1 : UInt32).toNat = 1 := rfl
    rw [toNat_wrap, toNat_wrap, UInt32.toNat_sub, one]
    omega

theorem bears_of_admission {seg : TCPSegment} {index : Nat}
    (checkpoint : receiver.checkp ≤ 2 ^ 64 - 2 ^ 31)
    (admitted : (receiver.locate seg).admission seg = some index) {offset : Nat} {byte : Byte}
    (found : seg.payload.str[offset]? = some byte) :
    Bears ⟨(receiver.locate seg).isn⟩ seg (index + offset) byte := by
  obtain ⟨_, located, _, _⟩ := (admission_eq_some_iff _ _ _).mp admitted
  rw [locate_checkp] at located
  have placed := wrap_unwrap ⟨(receiver.locate seg).begin⟩ ⟨(receiver.locate seg).isn⟩
    checkpoint
  rw [← located] at placed
  refine ⟨offset, found, ?_⟩
  calc wrap (offset + (if seg.header.syn then 1 else 0)) seg.header.seqno
      = wrap offset (wrap (if seg.header.syn then 1 else 0) seg.header.seqno) := by
        rw [Nat.add_comm, wrap_add]
    _ = wrap offset (wrap 1 (wrap index ⟨(receiver.locate seg).isn⟩)) := by
        rw [← receiver.locate_begin seg, placed]
    _ = wrap (index + offset + 1) ⟨(receiver.locate seg).isn⟩ := by
        rw [← wrap_add, ← wrap_add, Nat.add_right_comm, Nat.add_assoc]

end

structure Traceable (capacity : Nat) (journal : Journal) : Prop where
  guarded : Guarded capacity journal.session.receiver
  rooted : Rooted journal.arrived journal.session.receiver
  traced : Traced journal.Delivered journal.session.consumed
    journal.session.receiver.reassembler

section

variable {capacity : Nat} {journal : Journal}

theorem Journal.delivered_mono (journal : Journal) (seg : TCPSegment) :
    ∀ position byte, journal.Delivered position byte →
      (journal.next (.segment seg)).Delivered position byte := by
  rintro position byte ⟨first, member, syn, other, later, bears⟩
  exact ⟨first, List.mem_append_left _ member, syn, other, List.mem_append_left _ later, bears⟩

theorem Traceable.segment (traceable : Traceable capacity journal)
    (small : capacity < 2 ^ 31) {seg : TCPSegment}
    (payload : seg.payload.str.length < 2 ^ 31)
    (written : journal.session.receiver.streamOut.bytesWritten < 2 ^ 63) :
    Traceable capacity (journal.next (.segment seg)) := by
  obtain ⟨guarded, rooted, traced⟩ := traceable
  have traced := traced.mono (journal.delivered_mono seg)
  refine ⟨guarded.segmentReceived small payload written, rooted.segmentReceived seg, ?_⟩
  change Traced _ _ (journal.session.receiver.segmentReceived seg).reassembler
  rcases segmentReceived_cases journal.session.receiver seg with
    ⟨_, ⟨_, _, same⟩ | ⟨_, _, located⟩⟩ | ⟨index, _, _, admitted, delivered⟩
  · rw [same]
    exact traced
  · rw [located, locate_reassembler]
    exact traced
  · rw [delivered, deliver_reassembler, locate_reassembler]
    have pushable := guarded.pushable small payload written admitted
    have started := ((admission_eq_some_iff _ _ _).mp admitted).1
    obtain ⟨first, member, syn, number⟩ := rooted.locate seg started
    have checkpoint : journal.session.receiver.checkp ≤ 2 ^ 64 - 2 ^ 31 := by
      rcases guarded.checkpoint with checkp | checkp <;> omega
    refine traced.pushSubstring ⟨by have := pushable.endFits; omega,
      Or.inr ⟨pushable.inside, pushable.endFits⟩⟩ ?_ _
    intro offset byte found _
    have bears := bears_of_admission checkpoint admitted found
    rw [number] at bears
    exact ⟨first, member, syn, seg, List.mem_append_right _ (List.mem_singleton_self _), bears⟩

theorem Traceable.read (traceable : Traceable capacity journal) (len : Nat) :
    Traceable capacity (journal.next (.read len)) :=
  ⟨traceable.guarded.readOut len, traceable.rooted, traceable.traced.readOut len⟩

end

/-- Whatever the peer sends, every byte of the output was the payload of a segment that
arrived, under the sequence number its position calls for. -/
theorem receiver_invents_nothing {capacity : Nat} (small : capacity < 2 ^ 31)
    {journal : Journal} (reached : (journals capacity).Reachable journal)
    (written : journal.session.receiver.streamOut.bytesWritten < 2 ^ 63)
    (position : Nat) (byte : Byte)
    (output : (journal.session.consumed ++ journal.session.receiver.streamOut.bts)[position]? =
      some byte) : journal.Delivered position byte := by
  have traceable : Traceable capacity journal := by
    refine Machine.invariant_below (Traceable capacity)
      (fun journal : Journal => journal.session.receiver.streamOut.bytesWritten) (2 ^ 63)
      ?_ ?_ ?_ reached written
    · intro journal event _
      cases event with
      | segment seg => exact bytesWritten_le_next journal.session (.segment seg)
      | read len => exact bytesWritten_le_next journal.session (.read len)
    · exact ⟨guarded_new capacity, nofun, StreamReassembler.traced_new _ (by omega)⟩
    · intro journal event allowed before _ traceable
      cases event with
      | segment seg => exact traceable.segment small allowed before
      | read len => exact traceable.read len
  have delivered := traceable.traced.output position byte output
  rwa [Nat.zero_add] at delivered

theorem receiver_invents_nothing_wrapping :
    let journal := (journals 8).run (journals 8).init
      [.segment ⟨{ seqno := ⟨0xffffffff⟩, syn := true }, .ofString [1, 2]⟩,
        .segment ⟨{ seqno := ⟨1⟩ }, .ofString [7, 8, 9]⟩, .read 1]
    journal.session.receiver.streamOut.bts = [2, 8, 9] ∧ journal.Delivered 3 9 :=
  ⟨by decide, receiver_invents_nothing (by decide)
    ((journals 8).reachable_run _ (by decide)) (by decide) 3 9 (by decide)⟩

end Sponge.TCPReceiver
