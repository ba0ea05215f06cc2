import Sponge.StreamReassembler.Content
import Sponge.TCPReceiver.Robustness

namespace Sponge.TCPReceiver

open Fragment
open StreamReassembler (Carries Sound Pushable)

/-! The receiver under segments cut from one byte stream. -/

/-- The segment carries the bytes of `source` at stream index `index`, numbered
from `isn`, and has FIN only at the end of `source`. -/
structure Consistent (isn : WrappingInt32) (source : List Byte) (index : Nat)
    (seg : TCPSegment) : Prop where
  first : seg.header.syn = true → seg.header.seqno = isn ∧ index = 0
  later : seg.header.syn = false → seg.header.seqno = wrap (index + 1) isn
  payload : Excerpt source (index, seg.payload.str)
  last : seg.header.fin = true → index + seg.payload.str.length = source.length

instance (isn : WrappingInt32) (source : List Byte) (index : Nat) (seg : TCPSegment) :
    Decidable (Consistent isn source index seg) :=
  decidable_of_iff
    ((seg.header.syn = true → seg.header.seqno = isn ∧ index = 0) ∧
      (seg.header.syn = false → seg.header.seqno = wrap (index + 1) isn) ∧
      seg.payload.str <+: source.drop index ∧
      (seg.header.fin = true → index + seg.payload.str.length = source.length))
    ⟨fun ⟨first, later, payload, last⟩ => ⟨first, later, payload, last⟩,
      fun ⟨first, later, payload, last⟩ => ⟨first, later, payload, last⟩⟩

structure Complete (source consumed : List Byte) (reassembler : StreamReassembler) :
    Prop where
  sound : reassembler.Sound
  ended : reassembler.output.endFlag = true
  front : reassembler.writePtr = source.length
  content : consumed ++ reassembler.output.bts = source

theorem Complete.pushSubstring {source consumed : List Byte}
    {reassembler : StreamReassembler} (complete : Complete source consumed reassembler)
    {data : List Byte} {index : Nat} (pushable : reassembler.Pushable data index)
    (behind : data = [] ∨ index + data.length ≤ source.length) (eof : Bool) :
    Complete source consumed (reassembler.pushSubstring data index eof) := by
  have sound := complete.sound
  have nothing := sound.added_eq_nil pushable (complete.front ▸ behind)
  refine ⟨sound.pushSubstring pushable eof, ?_, ?_, ?_⟩
  · rw [sound.push_endFlag pushable]
    exact Or.inl complete.ended
  · rw [sound.push_writePtr pushable, nothing]
    exact complete.front
  · rw [sound.push_output pushable, nothing, List.append_nil]
    exact complete.content

theorem Complete.readOut {source consumed : List Byte} {reassembler : StreamReassembler}
    (complete : Complete source consumed reassembler) (len : Nat) :
    Complete source (consumed ++ (reassembler.output.read len).1)
      (reassembler.readOut len) := by
  refine ⟨complete.sound.readOut len, ?_, complete.front, ?_⟩
  · have ended := complete.ended
    simpa [StreamReassembler.readOut, ByteStream.read_eq] using ended
  · have content := complete.content
    simpa [StreamReassembler.readOut, ByteStream.read_eq, List.append_assoc] using content

/-! ## The three phases -/

section

variable (isn : WrappingInt32) (source consumed : List Byte) (receiver : TCPReceiver)

structure Listening : Prop where
  syn : receiver.syn = false
  ack : receiver.ack = none
  checkp : receiver.checkp = 0
  carries : Carries source consumed receiver.reassembler
  running : receiver.streamOut.inputEnded = false
  untouched : receiver.streamOut.bytesWritten = 0

structure Receiving : Prop where
  syn : receiver.syn = true
  number : receiver.isn = isn.rawValue
  checkp : receiver.checkp = receiver.streamOut.bytesWritten
  ack : receiver.ack = some (wrap (receiver.streamOut.bytesWritten + 1) isn)
  carries : Carries source consumed receiver.reassembler
  running : receiver.streamOut.inputEnded = false

/-- The stream has ended. `_syn` may be set again by a SYN that met a full
window. -/
structure Finished : Prop where
  number : receiver.isn = isn.rawValue
  checkp : receiver.checkp = 0
  ack : receiver.ack = some (wrap (source.length + 2) isn)
  complete : Complete source consumed receiver.reassembler

def Active : Prop :=
  Receiving isn source consumed receiver ∨ Finished isn source consumed receiver

end

section Step

variable {isn : WrappingInt32} {source consumed : List Byte} {receiver : TCPReceiver}

theorem deliver_active {seg : TCPSegment} {index : Nat} (syn : receiver.syn = true)
    (number : receiver.isn = isn.rawValue)
    (carries : Carries source consumed receiver.reassembler)
    (pushable : receiver.reassembler.Pushable seg.payload.str index)
    (payload : Excerpt source (index, seg.payload.str))
    (last : seg.header.fin = true → index + seg.payload.str.length = source.length) :
    Active isn source consumed (receiver.deliver seg index) := by
  have carried := carries.pushSubstring pushable payload last
  have same : (⟨receiver.isn⟩ : WrappingInt32) = isn := by rw [number]
  unfold deliver
  dsimp only
  split
  next ended =>
    obtain ⟨flag, pointer⟩ := carried.ended.mp ended
    have whole := pointer.trans (carried.closing flag)
    have written := carried.sound.written.symm.trans whole
    have content := carried.content
    rw [whole, List.take_length] at content
    refine Or.inr ⟨number, rfl, ?_, carried.sound, ended, whole, content⟩
    rw [same]
    exact congrArg (fun count => some (wrap (count + 2) isn)) written
  next running =>
    exact Or.inl ⟨syn, number, rfl, by rw [same]; rfl, carried,
      Bool.eq_false_of_not_eq_true running⟩

theorem Consistent.begin_eq {seg : TCPSegment} {index : Nat}
    (consistent : Consistent isn source index seg) (receiver : TCPReceiver) :
    (⟨(receiver.locate seg).begin⟩ : WrappingInt32) = wrap index isn := by
  unfold locate
  split
  next syn =>
    obtain ⟨seqno, rfl⟩ := consistent.first syn
    rw [wrap_zero, ← seqno]
  next data =>
    have seqno := consistent.later (Bool.eq_false_of_not_eq_true data)
    dsimp only
    rw [seqno, wrap_succ_pred]

theorem Consistent.isn_eq {seg : TCPSegment} {index : Nat}
    (consistent : Consistent isn source index seg) (receiver : TCPReceiver)
    (number : seg.header.syn = true ∨ receiver.isn = isn.rawValue) :
    (receiver.locate seg).isn = isn.rawValue := by
  unfold locate
  split
  next syn => rw [← (consistent.first syn).1]
  next data => exact number.resolve_left data

theorem Consistent.first_admitted {seg : TCPSegment} {index : Nat}
    (consistent : Consistent isn source index seg) (syn : seg.header.syn = true)
    (fresh : receiver.checkp = 0) (word : receiver.windowSize < 2 ^ 64)
    (window : 0 < receiver.windowSize) : (receiver.locate seg).admission seg = some 0 := by
  have number := consistent.isn_eq receiver (Or.inl syn)
  obtain ⟨_, rfl⟩ := consistent.first syn
  rw [admission_eq_some_iff, consistent.begin_eq, number, locate_checkp, fresh,
    unwrap_wrap_zero, locate_windowSize]
  refine ⟨by simp [locate, syn], rfl, Nat.zero_le _, ?_⟩
  rw [SizeT.add_of_lt (by omega), Nat.zero_add]
  exact window

/-- Bounds under which the 64-bit arithmetic of one segment is exact. -/
structure Bounded (source : List Byte) (receiver : TCPReceiver) (seg : TCPSegment) :
    Prop where
  capacity : receiver.reassembler.capacity < 2 ^ 31
  payload : seg.payload.str.length < 2 ^ 31
  source : source.length < 2 ^ 63

theorem Receiving.guarded (receiving : Receiving isn source consumed receiver) :
    Guarded receiver.reassembler.capacity receiver :=
  ⟨receiving.carries.sound, rfl, Or.inr receiving.checkp⟩

theorem Finished.guarded (finished : Finished isn source consumed receiver) :
    Guarded receiver.reassembler.capacity receiver :=
  ⟨finished.complete.sound, rfl, Or.inl finished.checkp⟩

theorem Receiving.written_le (receiving : Receiving isn source consumed receiver) :
    receiver.streamOut.bytesWritten ≤ source.length :=
  Nat.le_trans (Nat.le_of_eq receiving.carries.sound.written.symm) receiving.carries.front

theorem Finished.written_eq (finished : Finished isn source consumed receiver) :
    receiver.streamOut.bytesWritten = source.length :=
  finished.complete.sound.written.symm.trans finished.complete.front

theorem Receiving.segment (receiving : Receiving isn source consumed receiver)
    {seg : TCPSegment} {index : Nat} (consistent : Consistent isn source index seg)
    (bounded : Bounded source receiver seg)
    (located : seg.header.syn = false →
      unwrap (wrap index isn) isn receiver.streamOut.bytesWritten = index) :
    Active isn source consumed (receiver.segmentReceived seg) := by
  have written := receiving.written_le
  have length := bounded.source
  rcases segmentReceived_cases receiver seg with
    ⟨_, ⟨_, _, same⟩ | ⟨fresh, _, refused⟩⟩ | ⟨pushed, _, fresh, admitted, delivered⟩
  · rw [same]
    exact Or.inl receiving
  · have data : ¬seg.header.syn = true := fun syn => fresh ⟨syn, receiving.syn⟩
    rw [refused, locate, if_neg data]
    exact Or.inl ⟨receiving.syn, receiving.number, receiving.checkp, receiving.ack,
      receiving.carries, receiving.running⟩
  · have data : seg.header.syn = false :=
      Bool.eq_false_of_not_eq_true fun syn => fresh ⟨syn, receiving.syn⟩
    have pushable := receiving.guarded.pushable bounded.capacity bounded.payload
      (by omega) admitted
    obtain ⟨started, location, _⟩ := (admission_eq_some_iff _ _ _).mp admitted
    have number := consistent.isn_eq receiver (Or.inr receiving.number)
    rw [consistent.begin_eq, number, locate_checkp, receiving.checkp] at location
    obtain rfl : pushed = index := location.trans (located data)
    rw [delivered]
    refine deliver_active started number ?_ ?_ consistent.payload consistent.last
    · rw [locate_reassembler]
      exact receiving.carries
    · rw [locate_reassembler]
      exact pushable

theorem Finished.segment (finished : Finished isn source consumed receiver)
    {seg : TCPSegment} {index : Nat} (consistent : Consistent isn source index seg)
    (bounded : Bounded source receiver seg) :
    Finished isn source consumed (receiver.segmentReceived seg) := by
  have written := finished.written_eq
  have length := bounded.source
  have number := consistent.isn_eq receiver (Or.inr finished.number)
  rcases segmentReceived_cases receiver seg with
    ⟨_, ⟨_, _, same⟩ | ⟨_, _, located⟩⟩ | ⟨pushed, _, _, admitted, delivered⟩
  · rwa [same]
  · rw [located]
    refine ⟨number, ?_, ?_, ?_⟩
    · rw [locate_checkp]
      exact finished.checkp
    · rw [locate_ack]
      exact finished.ack
    · rw [locate_reassembler]
      exact finished.complete
  · have pushable := finished.guarded.pushable bounded.capacity bounded.payload
      (by omega) admitted
    obtain ⟨_, location, _⟩ := (admission_eq_some_iff _ _ _).mp admitted
    rw [consistent.begin_eq, number, locate_checkp, finished.checkp,
      unwrap_wrap_zero] at location
    -- the checkpoint is zero, so the index may be a wrong one, but never a larger one
    have behind : seg.payload.str = [] ∨
        pushed + seg.payload.str.length ≤ source.length := by
      by_cases empty : seg.payload.str = []
      · exact Or.inl empty
      · have stop := consistent.payload.stop_le (List.length_pos_iff.mpr empty)
        rw [stop_mk] at stop
        exact Or.inr (by omega)
    have complete := finished.complete.pushSubstring pushable behind seg.header.fin
    rw [← locate_reassembler receiver seg] at complete
    have count : ((receiver.locate seg).reassembler.pushSubstring seg.payload.str pushed
        seg.header.fin).output.writeCount = source.length :=
      complete.sound.written.symm.trans complete.front
    rw [delivered, deliver]
    refine (if_pos (show _ = true from complete.ended)).symm ▸ ?_
    refine ⟨number, rfl, ?_, complete⟩
    rw [number]
    exact congrArg (fun count => some (wrap (count + 2) isn)) count

theorem Listening.data (listening : Listening source consumed receiver)
    {seg : TCPSegment} (data : seg.header.syn = false) :
    Listening source consumed (receiver.segmentReceived seg) := by
  rw [segmentReceived_unstarted data listening.syn]
  exact ⟨listening.syn, listening.ack, listening.checkp, listening.carries,
    listening.running, listening.untouched⟩

theorem Listening.delivers (listening : Listening source consumed receiver)
    {seg : TCPSegment} {index : Nat} (syn : seg.header.syn = true)
    (consistent : Consistent isn source index seg)
    (bounded : Bounded source receiver seg)
    (positive : 0 < receiver.reassembler.capacity) :
    receiver.reassembler.Pushable seg.payload.str 0 ∧
      receiver.segmentReceived seg = (receiver.locate seg).deliver seg 0 := by
  have guarded : Guarded receiver.reassembler.capacity receiver :=
    ⟨listening.carries.sound, rfl, Or.inl listening.checkp⟩
  have small := bounded.capacity
  have window : receiver.windowSize = receiver.reassembler.capacity := by
    have valid := listening.carries.sound.valid
    have room := listening.carries.sound.room
    have counted := valid.counted
    have untouched : receiver.reassembler.output.writeCount = 0 := listening.untouched
    rw [← room]
    exact (valid.remainingCapacity_eq (by omega)).trans (by omega)
  have admitted := consistent.first_admitted syn listening.checkp (by omega) (by omega)
  have written : receiver.streamOut.bytesWritten < 2 ^ 63 := by
    rw [listening.untouched]
    decide
  refine ⟨guarded.pushable bounded.capacity bounded.payload written admitted, ?_⟩
  simp [segmentReceived, listening.syn, admitted]

theorem Listening.first (listening : Listening source consumed receiver)
    {seg : TCPSegment} {index : Nat} (syn : seg.header.syn = true)
    (consistent : Consistent isn source index seg)
    (bounded : Bounded source receiver seg)
    (positive : 0 < receiver.reassembler.capacity) :
    Active isn source consumed (receiver.segmentReceived seg) := by
  obtain ⟨pushable, delivered⟩ := listening.delivers syn consistent bounded positive
  have number := consistent.isn_eq receiver (Or.inl syn)
  have started : (receiver.locate seg).syn = true := by
    simp [locate, syn]
  obtain ⟨_, rfl⟩ := consistent.first syn
  rw [delivered]
  refine deliver_active started number ?_ ?_ consistent.payload consistent.last
  · rw [locate_reassembler]
    exact listening.carries
  · rw [locate_reassembler]
    exact pushable

/-! Reading moves only the output. -/

theorem Listening.readOut (listening : Listening source consumed receiver) (len : Nat) :
    Listening source (consumed ++ (receiver.streamOut.read len).1)
      (receiver.readOut len) where
  syn := listening.syn
  ack := listening.ack
  checkp := listening.checkp
  carries := listening.carries.readOut len
  running := by
    rw [readOut_streamOut]
    exact listening.running
  untouched := by
    rw [readOut_streamOut]
    exact listening.untouched

theorem Receiving.readOut (receiving : Receiving isn source consumed receiver)
    (len : Nat) :
    Receiving isn source (consumed ++ (receiver.streamOut.read len).1)
      (receiver.readOut len) where
  syn := receiving.syn
  number := receiving.number
  checkp := by
    rw [readOut_streamOut]
    exact receiving.checkp
  ack := by
    rw [readOut_streamOut]
    exact receiving.ack
  carries := receiving.carries.readOut len
  running := by
    rw [readOut_streamOut]
    exact receiving.running

theorem Active.readOut (active : Active isn source consumed receiver) (len : Nat) :
    Active isn source (consumed ++ (receiver.streamOut.read len).1)
      (receiver.readOut len) := by
  rcases active with receiving | finished
  · exact Or.inl (receiving.readOut len)
  · exact Or.inr ⟨finished.number, finished.checkp, finished.ack,
      finished.complete.readOut len⟩

theorem Active.segment (active : Active isn source consumed receiver)
    {seg : TCPSegment} {index : Nat} (consistent : Consistent isn source index seg)
    (bounded : Bounded source receiver seg)
    (located : seg.header.syn = false →
      unwrap (wrap index isn) isn receiver.streamOut.bytesWritten = index) :
    Active isn source consumed (receiver.segmentReceived seg) := by
  rcases active with receiving | finished
  · exact receiving.segment consistent bounded located
  · exact Or.inr (finished.segment consistent bounded)

end Step

theorem segmentReceived_capacity (receiver : TCPReceiver) (seg : TCPSegment) :
    (receiver.segmentReceived seg).reassembler.capacity =
      receiver.reassembler.capacity := by
  rcases segmentReceived_cases receiver seg with
    ⟨_, ⟨_, _, same⟩ | ⟨_, _, located⟩⟩ | ⟨index, _, _, _, delivered⟩
  · rw [same]
  · rw [located, locate_reassembler]
  · rw [delivered, deliver_reassembler, locate_reassembler,
      StreamReassembler.push_capacity]

/-! ## Runs on one stream -/

/-- The events of a network that carries `source`. Data arrives at most half the
number space away from what has been written. -/
def FromSource (isn : WrappingInt32) (source : List Byte) (session : Session) :
    Event → Prop
  | .segment seg =>
      seg.payload.str.length < 2 ^ 16 ∧
        ∃ index, Consistent isn source index seg ∧
          (seg.header.syn = false →
            index < session.receiver.streamOut.bytesWritten + 2 ^ 31 ∧
              session.receiver.streamOut.bytesWritten < index + 2 ^ 31)
  | .read _ => True

structure Tracked (isn : WrappingInt32) (source : List Byte) (capacity : Nat)
    (session : Session) : Prop where
  room : session.receiver.reassembler.capacity = capacity
  phase : if session.synArrived then
      Active isn source session.consumed session.receiver
    else Listening source session.consumed session.receiver

theorem tracked_init (isn : WrappingInt32) (source : List Byte) (capacity : Nat) :
    Tracked isn source capacity { receiver := new capacity } where
  room := rfl
  phase := ⟨rfl, rfl, rfl, StreamReassembler.carries_new source capacity, rfl, rfl⟩

theorem Tracked.segment {isn : WrappingInt32} {source : List Byte} {capacity : Nat}
    (positive : 0 < capacity) (small : capacity < 2 ^ 31) (length : source.length < 2 ^ 63)
    {session : Session} (tracked : Tracked isn source capacity session)
    {seg : TCPSegment} {index : Nat} (consistent : Consistent isn source index seg)
    (payload : seg.payload.str.length < 2 ^ 31)
    (located : seg.header.syn = false →
      unwrap (wrap index isn) isn session.receiver.streamOut.bytesWritten = index) :
    Tracked isn source capacity (session.next (.segment seg)) := by
  obtain ⟨room, phase⟩ := tracked
  have bounded : Bounded source session.receiver seg := ⟨room ▸ small, payload, length⟩
  refine ⟨(segmentReceived_capacity _ _).trans room, ?_⟩
  change if (session.synArrived || seg.header.syn) then
    Active isn source session.consumed (session.receiver.segmentReceived seg)
    else Listening source session.consumed (session.receiver.segmentReceived seg)
  cases arrived : session.synArrived with
  | true =>
      rw [arrived] at phase
      exact phase.segment consistent bounded located
  | false =>
      rw [arrived] at phase
      cases syn : seg.header.syn with
      | true => exact phase.first syn consistent bounded (room ▸ positive)
      | false => exact phase.data syn

theorem Tracked.read {isn : WrappingInt32} {source : List Byte} {capacity : Nat}
    {session : Session} (tracked : Tracked isn source capacity session) (len : Nat) :
    Tracked isn source capacity (session.next (.read len)) := by
  obtain ⟨room, phase⟩ := tracked
  refine ⟨room, ?_⟩
  change if session.synArrived then _ else _
  cases arrived : session.synArrived with
  | true =>
      rw [arrived] at phase
      exact Active.readOut phase len
  | false =>
      rw [arrived] at phase
      exact Listening.readOut phase len

theorem Tracked.extend {isn : WrappingInt32} {source longer : List Byte} {capacity : Nat}
    {session : Session} (tracked : Tracked isn source capacity session)
    (grows : source <+: longer)
    (unclosed : session.receiver.reassembler.eofF = true ∨
      session.receiver.streamOut.inputEnded = true → longer = source) :
    Tracked isn longer capacity session := by
  obtain ⟨room, phase⟩ := tracked
  have unmarked : session.receiver.reassembler.eofF = true → longer = source :=
    fun flag => unclosed (Or.inl flag)
  refine ⟨room, ?_⟩
  split
  next arrived =>
    rw [if_pos arrived] at phase
    rcases phase with receiving | finished
    · exact Or.inl ⟨receiving.syn, receiving.number, receiving.checkp, receiving.ack,
        receiving.carries.extend grows unmarked, receiving.running⟩
    · rw [unclosed (Or.inr finished.complete.ended)]
      exact Or.inr finished
  next waiting =>
    rw [if_neg waiting] at phase
    exact ⟨phase.syn, phase.ack, phase.checkp, phase.carries.extend grows unmarked,
      phase.running, phase.untouched⟩

/-- The absolute number of the first byte the receiver would not accept. -/
def rightEdge (receiver : TCPReceiver) : Nat :=
  1 + receiver.streamOut.bytesWritten + (if receiver.streamOut.inputEnded then 1 else 0) +
    receiver.windowSize

structure ReceivesCorrectly (isn : WrappingInt32) (source : List Byte) (capacity : Nat)
    (session : Session) : Prop where
  silent : session.receiver.ackno = none ↔ session.synArrived = false
  ackno : session.synArrived = true → session.receiver.ackno =
    some (wrap (1 + session.receiver.streamOut.bytesWritten +
      (if session.receiver.streamOut.inputEnded then 1 else 0)) isn)
  within : session.receiver.streamOut.bytesWritten ≤ source.length
  output : session.consumed ++ session.receiver.streamOut.bts =
    source.take session.receiver.streamOut.bytesWritten
  ended : session.receiver.streamOut.inputEnded = true →
    session.receiver.streamOut.bytesWritten = source.length
  window : session.receiver.windowSize = capacity -
    (session.receiver.streamOut.bytesWritten - session.receiver.streamOut.bytesRead)

theorem windowSize_eq {receiver : TCPReceiver} (sound : receiver.reassembler.Sound)
    (small : receiver.reassembler.capacity < 2 ^ 31) :
    receiver.windowSize = receiver.reassembler.capacity -
      (receiver.streamOut.bytesWritten - receiver.streamOut.bytesRead) := by
  have counted : receiver.streamOut.bytesWritten = receiver.streamOut.bytesRead + _ :=
    sound.valid.counted
  have room := sound.room
  refine (sound.valid.remainingCapacity_eq (by omega)).trans ?_
  rw [room]
  omega

theorem rightEdge_eq {receiver : TCPReceiver} (sound : receiver.reassembler.Sound)
    (small : receiver.reassembler.capacity < 2 ^ 31) :
    receiver.rightEdge = 1 + receiver.streamOut.bytesRead +
      (if receiver.streamOut.inputEnded then 1 else 0) +
        receiver.reassembler.capacity := by
  have counted : receiver.streamOut.bytesWritten = receiver.streamOut.bytesRead + _ :=
    sound.valid.counted
  have bounded := sound.valid.bounded
  have room := sound.room
  rw [rightEdge, windowSize_eq sound small]
  omega

theorem Tracked.sound {isn : WrappingInt32} {source : List Byte} {capacity : Nat}
    {session : Session} (tracked : Tracked isn source capacity session) :
    session.receiver.reassembler.Sound := by
  have phase := tracked.phase
  split at phase
  · rcases phase with receiving | finished
    · exact receiving.carries.sound
    · exact finished.complete.sound
  · exact phase.carries.sound

theorem Carries.output_eq {source consumed : List Byte} {receiver : TCPReceiver}
    (carries : Carries source consumed receiver.reassembler) :
    receiver.streamOut.bytesWritten ≤ source.length ∧
      consumed ++ receiver.streamOut.bts =
        source.take receiver.streamOut.bytesWritten := by
  have written : receiver.reassembler.writePtr = receiver.streamOut.bytesWritten :=
    carries.sound.written
  rw [← written]
  exact ⟨carries.front, carries.content⟩

theorem Tracked.correct {isn : WrappingInt32} {source : List Byte} {capacity : Nat}
    (small : capacity < 2 ^ 31) {session : Session}
    (tracked : Tracked isn source capacity session) :
    ReceivesCorrectly isn source capacity session := by
  have window := windowSize_eq tracked.sound (tracked.room ▸ small)
  rw [tracked.room] at window
  have phase := tracked.phase
  cases arrived : session.synArrived with
  | false =>
      rw [arrived] at phase
      have listening : Listening source session.consumed session.receiver := phase
      obtain ⟨within, output⟩ := Carries.output_eq listening.carries
      refine ⟨by simp [ackno, listening.ack, arrived], by simp [arrived], within, output,
        ?_, window⟩
      simp [listening.running]
  | true =>
      rw [arrived] at phase
      have active : Active isn source session.consumed session.receiver := phase
      rcases active with receiving | finished
      · obtain ⟨within, output⟩ := Carries.output_eq receiving.carries
        refine ⟨by simp [ackno, receiving.ack, arrived], fun _ => ?_, within, output, ?_,
          window⟩
        · rw [receiving.running, ackno, receiving.ack]
          simp [Nat.add_comm]
        · simp [receiving.running]
      · have written := finished.written_eq
        have ended : session.receiver.streamOut.inputEnded = true := finished.complete.ended
        refine ⟨by simp [ackno, finished.ack, arrived], fun _ => ?_, written.le, ?_,
          fun _ => written, window⟩
        · rw [ended, ackno, finished.ack, written, if_pos rfl]
          congr 2
          omega
        · rw [written, List.take_length]
          exact finished.complete.content

theorem Tracked.next {isn : WrappingInt32} {source : List Byte} {capacity : Nat}
    (positive : 0 < capacity) (small : capacity < 2 ^ 31) (length : source.length < 2 ^ 63)
    {session : Session} (tracked : Tracked isn source capacity session) {event : Event}
    (allowed : FromSource isn source session event) :
    Tracked isn source capacity (session.next event) := by
  cases event with
  | segment seg =>
      obtain ⟨payload, index, consistent, near⟩ := allowed
      have within := (tracked.correct small).within
      refine tracked.segment positive small length consistent
        (Nat.lt_trans payload (by decide)) ?_
      intro data
      obtain ⟨below, above⟩ := near data
      exact unwrap_wrap isn (by omega) below above
  | read len => exact tracked.read len

theorem Tracked.rightEdge_le {isn : WrappingInt32} {source : List Byte} {capacity : Nat}
    (small : capacity < 2 ^ 31) {session : Session}
    (tracked : Tracked isn source capacity session) {event : Event}
    (after : Tracked isn source capacity (session.next event)) :
    session.receiver.rightEdge ≤ (session.next event).receiver.rightEdge := by
  rw [rightEdge_eq tracked.sound (tracked.room ▸ small),
    rightEdge_eq after.sound (after.room ▸ small), tracked.room, after.room]
  cases event with
  | segment seg =>
      obtain ⟨extra, ended, extended⟩ := segmentReceived_streamOut session.receiver seg
      change _ ≤ 1 + (session.receiver.segmentReceived seg).streamOut.readCount +
        (if (session.receiver.segmentReceived seg).streamOut.endFlag then 1 else 0) + _
      rw [extended]
      unfold ByteStream.bytesRead ByteStream.inputEnded
      cases session.receiver.streamOut.endFlag <;> simp
  | read len =>
      change _ ≤ 1 + (session.receiver.readOut len).streamOut.readCount +
        (if (session.receiver.readOut len).streamOut.endFlag then 1 else 0) + _
      rw [readOut_streamOut]
      unfold ByteStream.bytesRead ByteStream.inputEnded
      dsimp only
      omega

theorem sessions_tracked {isn : WrappingInt32} {source : List Byte} {capacity : Nat}
    (positive : 0 < capacity) (small : capacity < 2 ^ 31) (length : source.length < 2 ^ 63)
    {session : Session}
    (reached : (sessions capacity (FromSource isn source)).Reachable session) :
    Tracked isn source capacity session :=
  Machine.invariant (Tracked isn source capacity) (tracked_init isn source capacity)
    (fun _ _ allowed tracked => tracked.next positive small length allowed) reached

/-- For a stream of any length: acknowledgement, output, end and window are right
at every point, and the right edge of the window never moves back. -/
theorem receiver_correct (isn : WrappingInt32) {source : List Byte} {capacity : Nat}
    (positive : 0 < capacity) (small : capacity < 2 ^ 31) (length : source.length < 2 ^ 63)
    {session : Session}
    (reached : (sessions capacity (FromSource isn source)).Reachable session) :
    ReceivesCorrectly isn source capacity session ∧
      ∀ later, (sessions capacity (FromSource isn source)).Reaches session later →
        session.receiver.rightEdge ≤ later.receiver.rightEdge := by
  refine ⟨(sessions_tracked positive small length reached).correct small, ?_⟩
  intro later onward
  induction onward with
  | refl => exact Nat.le_refl _
  | tail onward step induction =>
      obtain ⟨event, allowed, rfl⟩ := step
      have tracked := sessions_tracked positive small length (reached.trans onward)
      exact Nat.le_trans induction
        (tracked.rightEdge_le small (tracked.next positive small length allowed))

theorem receiver_correct_wrapping :
    ReceivesCorrectly ⟨0xfffffffe⟩ [1, 2, 3] 2
      ((sessions 2 (FromSource ⟨0xfffffffe⟩ [1, 2, 3])).run { receiver := new 2 }
        [.segment ⟨{ seqno := ⟨0⟩ }, .ofString [2]⟩,
          .segment ⟨{ seqno := ⟨0xfffffffe⟩, syn := true }, .ofString [1]⟩,
          .segment ⟨{ seqno := ⟨0⟩, fin := true }, .ofString [2, 3]⟩, .read 1,
          .segment ⟨{ seqno := ⟨0⟩, fin := true }, .ofString [2, 3]⟩]) := by
  refine (receiver_correct ⟨0xfffffffe⟩ (by decide) (by decide) (by decide)
    (Machine.reachable_run _ _ ?_)).1
  exact ⟨⟨by decide, 1, by decide, by decide⟩, ⟨by decide, 0, by decide, by decide⟩,
    ⟨by decide, 1, by decide, by decide⟩, trivial,
    ⟨by decide, 1, by decide, by decide⟩, trivial⟩

end Sponge.TCPReceiver
