import Sponge.StreamReassembler.Confined
import Sponge.TCPReceiver.Consistency

namespace Sponge.TCPReceiver

open StreamReassembler (Confined Admissible)

/-! Segments that cover the next number, for windows of any size and segments that may
belong anywhere in the stream. -/

/-- What `ackno` stands for: the SYN, the bytes written, and the FIN once the stream
has ended. -/
def absoluteAckno (receiver : TCPReceiver) : Nat :=
  1 + receiver.streamOut.bytesWritten + (if receiver.streamOut.inputEnded then 1 else 0)

def absoluteSeqno (seg : TCPSegment) (index : Nat) : Nat :=
  if seg.header.syn then 0 else index + 1

/-- Segments cut from `source`, wherever they belong. A string is shorter than 2^63. -/
def CutFrom (isn : WrappingInt32) (source : List Byte) (_session : Session) : Event → Prop
  | .segment seg =>
      seg.payload.str.length < 2 ^ 63 ∧ ∃ index, Consistent isn source index seg
  | .read _ => True

structure Sheltered (capacity : Nat) (receiver : TCPReceiver) : Prop where
  confined : receiver.reassembler.Confined
  room : receiver.reassembler.capacity = capacity
  checkpoint : receiver.checkp = 0 ∨ receiver.checkp = receiver.streamOut.bytesWritten

theorem sheltered_new {capacity : Nat} (word : capacity < 2 ^ 64) :
    Sheltered capacity (new capacity) :=
  ⟨StreamReassembler.confined_new word, rfl, Or.inl rfl⟩

section

variable {capacity : Nat} {receiver : TCPReceiver} {seg : TCPSegment}

theorem windowSize_eq_sub (confined : receiver.reassembler.Confined) :
    receiver.windowSize =
      receiver.reassembler.capacity - receiver.reassembler.output.bts.length := by
  have word := confined.word
  have remaining := confined.valid.remainingCapacity_eq (confined.room ▸ word)
  rwa [confined.room] at remaining

theorem bytesWritten_add_windowSize (confined : receiver.reassembler.Confined) :
    receiver.streamOut.bytesWritten + receiver.windowSize =
      receiver.reassembler.windowEnd := by
  have counted : receiver.streamOut.bytesWritten = receiver.streamOut.bytesRead +
    receiver.reassembler.output.bts.length := confined.valid.counted
  have bounded := confined.valid.bounded
  rw [confined.room] at bounded
  rw [windowSize_eq_sub confined, counted]
  change _ = receiver.streamOut.bytesRead + receiver.reassembler.capacity
  omega

theorem Sheltered.admissible (sheltered : Sheltered capacity receiver) {index : Nat}
    (payload : seg.payload.str.length < 2 ^ 63)
    (admitted : (receiver.locate seg).admission seg = some index) :
    receiver.reassembler.Admissible seg.payload.str index := by
  obtain ⟨_, location, reaches, inside⟩ := (admission_eq_some_iff _ _ _).mp admitted
  rw [locate_checkp] at location reaches inside
  rw [locate_windowSize] at inside
  have total := bytesWritten_add_windowSize sheltered.confined
  have sum := SizeT.add_le receiver.checkp receiver.windowSize
  have near : index ≤ receiver.checkp + 2 ^ 32 := by
    obtain ⟨meant, _, unwrapped, range⟩ := unwrap_candidate
      ⟨(receiver.locate seg).begin⟩ ⟨(receiver.locate seg).isn⟩ receiver.checkp
    have := Nat.mod_le meant (2 ^ 64)
    omega
  have address : SizeT.add receiver.checkp receiver.windowSize < 2 ^ 64 :=
    Nat.mod_lt _ (Nat.two_pow_pos 64)
  refine ⟨by omega, Or.inr ⟨?_, ?_⟩⟩
  · rcases sheltered.checkpoint with zero | written <;> omega
  · -- a sum that wraps would lie far before the checkpoint
    by_contra wraps
    unfold SizeT.add at reaches
    omega

theorem Sheltered.segmentReceived (sheltered : Sheltered capacity receiver)
    (payload : seg.payload.str.length < 2 ^ 63) :
    Sheltered capacity (receiver.segmentReceived seg) := by
  have room := (segmentReceived_capacity receiver seg).trans sheltered.room
  rcases segmentReceived_cases receiver seg with
    ⟨_, ⟨_, _, same⟩ | ⟨_, _, located⟩⟩ | ⟨index, _, _, admitted, delivered⟩
  · rwa [same]
  · rw [located] at room ⊢
    refine ⟨?_, room, ?_⟩
    · rw [locate_reassembler]
      exact sheltered.confined
    · rw [locate_checkp, streamOut, locate_reassembler]
      exact sheltered.checkpoint
  · rw [delivered] at room ⊢
    refine ⟨?_, room, deliver_checkpoint _ _ _⟩
    rw [deliver_reassembler, locate_reassembler]
    exact sheltered.confined.pushSubstring (sheltered.admissible payload admitted) _

theorem Sheltered.readOut (sheltered : Sheltered capacity receiver) (len : Nat) :
    Sheltered capacity (receiver.readOut len) := by
  refine ⟨sheltered.confined.readOut len, sheltered.room, ?_⟩
  rw [readOut_streamOut]
  exact sheltered.checkpoint

end

/-! ## Before and after the SYN -/

structure Waiting (receiver : TCPReceiver) : Prop where
  syn : receiver.syn = false
  ack : receiver.ackno = none
  checkp : receiver.checkp = 0
  running : receiver.streamOut.inputEnded = false
  untouched : receiver.streamOut.bytesWritten = 0

structure Answering (isn : WrappingInt32) (receiver : TCPReceiver) : Prop where
  number : receiver.isn = isn.rawValue
  ack : receiver.ackno = some (wrap receiver.absoluteAckno isn)
  running : receiver.streamOut.inputEnded = false →
    receiver.syn = true ∧ receiver.checkp = receiver.streamOut.bytesWritten

section

variable {isn : WrappingInt32} {source : List Byte} {receiver : TCPReceiver}
  {seg : TCPSegment} {index : Nat}

theorem deliver_answering (syn : receiver.syn = true) (number : receiver.isn = isn.rawValue)
    (seg : TCPSegment) (index : Nat) : Answering isn (receiver.deliver seg index) := by
  have same : (⟨receiver.isn⟩ : WrappingInt32) = isn := by rw [number]
  unfold deliver
  generalize receiver.reassembler.pushSubstring seg.payload.copy index seg.header.fin = pushed
  dsimp only
  split
  next ended =>
    refine ⟨number, ?_, fun running => absurd (ended.symm.trans running) Bool.noConfusion⟩
    unfold ackno absoluteAckno streamOut
    dsimp only
    rw [same, if_pos ended, Nat.add_comm 1, Nat.add_assoc]
  next running =>
    refine ⟨number, ?_, fun _ => ⟨syn, rfl⟩⟩
    unfold ackno absoluteAckno streamOut
    dsimp only
    rw [same, if_neg running, Nat.add_comm 1, Nat.add_zero]

theorem Answering.segmentReceived (answering : Answering isn receiver)
    (consistent : Consistent isn source index seg) :
    Answering isn (receiver.segmentReceived seg) := by
  have number := consistent.isn_eq receiver (Or.inr answering.number)
  rcases segmentReceived_cases receiver seg with
    ⟨_, ⟨_, _, same⟩ | ⟨fresh, _, located⟩⟩ | ⟨pushed, _, _, admitted, delivered⟩
  · rwa [same]
  · rw [located]
    refine ⟨number, ?_, ?_⟩
    · unfold ackno absoluteAckno streamOut
      rw [locate_ack, locate_reassembler]
      exact answering.ack
    · intro running
      rw [streamOut, locate_reassembler] at running
      obtain ⟨syn, checkp⟩ := answering.running running
      have data : ¬ seg.header.syn = true := fun isSyn => fresh ⟨isSyn, syn⟩
      rw [locate, if_neg data]
      exact ⟨syn, checkp⟩
  · rw [delivered]
    exact deliver_answering ((admission_eq_some_iff _ _ _).mp admitted).1 number seg pushed

theorem Waiting.segmentReceived (waiting : Waiting receiver)
    (confined : receiver.reassembler.Confined)
    (positive : 0 < receiver.reassembler.capacity)
    (consistent : Consistent isn source index seg) :
    Waiting (receiver.segmentReceived seg) ∨ Answering isn (receiver.segmentReceived seg) := by
  cases syn : seg.header.syn with
  | false =>
      rw [segmentReceived_unstarted syn waiting.syn]
      exact Or.inl ⟨waiting.syn, waiting.ack, waiting.checkp, waiting.running,
        waiting.untouched⟩
  | true =>
      have number := consistent.isn_eq receiver (Or.inl syn)
      have started : (receiver.locate seg).syn = true := by
        simp [locate, syn]
      have window : receiver.windowSize = receiver.reassembler.capacity := by
        have counted := confined.valid.counted
        have untouched : receiver.reassembler.output.writeCount = 0 := waiting.untouched
        rw [windowSize_eq_sub confined]
        omega
      have word := confined.word
      have admitted := consistent.first_admitted syn waiting.checkp (by omega) (by omega)
      have delivered : receiver.segmentReceived seg =
          (receiver.locate seg).deliver seg 0 := by
        simp [TCPReceiver.segmentReceived, waiting.syn, admitted]
      rw [delivered]
      exact Or.inr (deliver_answering started number seg 0)

theorem Answering.readOut (answering : Answering isn receiver) (len : Nat) :
    Answering isn (receiver.readOut len) := by
  refine ⟨answering.number, ?_, ?_⟩
  · unfold absoluteAckno
    rw [readOut_streamOut]
    exact answering.ack
  · rw [readOut_streamOut]
    exact answering.running

theorem Waiting.readOut (waiting : Waiting receiver) (len : Nat) :
    Waiting (receiver.readOut len) := by
  refine ⟨waiting.syn, waiting.ack, waiting.checkp, ?_, ?_⟩
  · rw [readOut_streamOut]
    exact waiting.running
  · rw [readOut_streamOut]
    exact waiting.untouched

end

theorem sessions_answering {capacity : Nat} (word : capacity < 2 ^ 64)
    {isn : WrappingInt32} {source : List Byte} {session : Session}
    (reached : (sessions capacity (CutFrom isn source)).Reachable session) :
    Sheltered capacity session.receiver ∧
      (0 < capacity → Waiting session.receiver ∨ Answering isn session.receiver) := by
  refine Machine.invariant (fun session : Session => Sheltered capacity session.receiver ∧
    (0 < capacity → Waiting session.receiver ∨ Answering isn session.receiver)) ?_ ?_ reached
  · exact ⟨sheltered_new word, fun _ => Or.inl ⟨rfl, rfl, rfl, rfl, rfl⟩⟩
  · rintro session event allowed ⟨sheltered, phase⟩
    cases event with
    | segment seg =>
        obtain ⟨payload, index, consistent⟩ := allowed
        refine ⟨sheltered.segmentReceived payload, fun positive => ?_⟩
        rcases phase positive with waiting | answering
        · exact waiting.segmentReceived sheltered.confined (sheltered.room ▸ positive)
            consistent
        · exact Or.inr (answering.segmentReceived consistent)
    | read len =>
        exact ⟨sheltered.readOut len, fun positive =>
          (phase positive).imp (·.readOut len) (·.readOut len)⟩

/-! ## Covering the next number -/

/-- A data segment at stream index `index` that contains the next byte, or the FIN right
behind the bytes written, in a receiver that expects it. -/
structure CoversNext (isn : WrappingInt32) (source : List Byte) (receiver : TCPReceiver)
    (seg : TCPSegment) (index : Nat) : Prop where
  answering : Answering isn receiver
  confined : receiver.reassembler.Confined
  running : receiver.streamOut.inputEnded = false
  window : 0 < receiver.windowSize
  consistent : Consistent isn source index seg
  data : seg.header.syn = false
  payload : seg.payload.str.length < 2 ^ 64
  located : unwrap (wrap index isn) isn receiver.streamOut.bytesWritten = index
  starts : index ≤ receiver.streamOut.bytesWritten
  reaches : receiver.streamOut.bytesWritten <
    index + seg.payload.str.length + (if seg.header.fin then 1 else 0)

section

variable {isn : WrappingInt32} {source : List Byte} {receiver : TCPReceiver}
  {seg : TCPSegment} {index : Nat} (covers : CoversNext isn source receiver seg index)
include covers

theorem CoversNext.written_lt : receiver.streamOut.bytesWritten < 2 ^ 64 :=
  Nat.lt_of_le_of_lt (Nat.le_of_eq covers.confined.written.symm) covers.confined.front

theorem CoversNext.admission_iff (pushed : Nat) :
    (receiver.locate seg).admission seg = some pushed ↔
      pushed = index ∧
        receiver.streamOut.bytesWritten ≤ SizeT.add index seg.payload.str.length ∧
        index < receiver.reassembler.windowEnd % 2 ^ 64 := by
  obtain ⟨syn, checkp⟩ := covers.answering.running covers.running
  have number := covers.consistent.isn_eq receiver (Or.inr covers.answering.number)
  have started : (receiver.locate seg).syn = true := by
    rw [locate, if_neg (by rw [covers.data]; exact Bool.false_ne_true)]
    exact syn
  rw [admission_eq_some_iff, covers.consistent.begin_eq, number, locate_checkp,
    locate_windowSize, checkp, covers.located, ← bytesWritten_add_windowSize covers.confined]
  change _ ∧ _ ∧ _ ∧ _ < (_ + _) % 2 ^ 64 ↔ _
  constructor
  · rintro ⟨_, rfl, past, inside⟩
    exact ⟨rfl, past, inside⟩
  · rintro ⟨rfl, past, inside⟩
    exact ⟨started, rfl, past, inside⟩

theorem CoversNext.streamOut_cases :
    ((receiver.locate seg).admission seg = none ∧
        (receiver.segmentReceived seg).streamOut = receiver.streamOut) ∨
      ((receiver.locate seg).admission seg = some index ∧
        (receiver.segmentReceived seg).streamOut =
          (receiver.reassembler.pushSubstring seg.payload.str index seg.header.fin).output) := by
  have data := covers.data
  rcases segmentReceived_cases receiver seg with
    ⟨_, ⟨syn, _⟩ | ⟨_, refused, located⟩⟩ | ⟨pushed, _, _, admitted, delivered⟩
  · rw [data] at syn
    cases syn
  · refine Or.inl ⟨refused, ?_⟩
    rw [located, streamOut, locate_reassembler]
    rfl
  · obtain ⟨rfl, _⟩ := (covers.admission_iff pushed).mp admitted
    refine Or.inr ⟨admitted, ?_⟩
    rw [delivered, streamOut, deliver_reassembler, locate_reassembler]
    rfl

theorem CoversNext.moves (windowFits : receiver.reassembler.windowEnd < 2 ^ 64)
    (endFits : index + seg.payload.str.length < 2 ^ 64) :
    receiver.streamOut.bytesWritten <
        (receiver.segmentReceived seg).streamOut.bytesWritten ∨
      (receiver.segmentReceived seg).streamOut.inputEnded = true := by
  have confined := covers.confined
  have starts := covers.starts
  have reaches := covers.reaches
  have window := covers.window
  have total := bytesWritten_add_windowSize confined
  have written : receiver.reassembler.writePtr = receiver.streamOut.bytesWritten :=
    confined.written
  have pushable : receiver.reassembler.Pushable seg.payload.str index :=
    ⟨windowFits, show _ ≤ receiver.reassembler.windowEnd by omega, endFits⟩
  have admitted : (receiver.locate seg).admission seg = some index := by
    rw [covers.admission_iff, SizeT.add_of_lt endFits, Nat.mod_eq_of_lt windowFits]
    refine ⟨rfl, ?_, by omega⟩
    split at reaches <;> omega
  rcases covers.streamOut_cases with ⟨refused, _⟩ | ⟨_, pushed⟩
  · rw [refused] at admitted
    cases admitted
  · have address : receiver.reassembler.Admissible seg.payload.str index :=
      ⟨by omega, Or.inr ⟨pushable.inside, endFits⟩⟩
    rw [pushed]
    rw [← written] at starts reaches
    rcases confined.push_next pushable (by omega) starts reaches with more | ended
    · rw [written, (confined.pushSubstring address _).written] at more
      exact Or.inl more
    · exact Or.inr ended

theorem CoversNext.advances (windowFits : receiver.reassembler.windowEnd < 2 ^ 64)
    (endFits : index + seg.payload.str.length < 2 ^ 64) :
    receiver.absoluteAckno < (receiver.segmentReceived seg).absoluteAckno := by
  have grows := bytesWritten_le_segmentReceived receiver seg
  unfold absoluteAckno
  rw [covers.running, if_neg Bool.false_ne_true]
  rcases covers.moves windowFits endFits with more | ended
  · omega
  · rw [ended, if_pos rfl]
    omega

theorem CoversNext.stuck
    (wraps : 2 ^ 64 ≤ receiver.reassembler.windowEnd ∨
      2 ^ 64 ≤ index + seg.payload.str.length) :
    (receiver.segmentReceived seg).streamOut = receiver.streamOut := by
  -- A sum that leaves `size_t` gets the segment refused, or cut to what is already written.
  have confined := covers.confined
  have starts := covers.starts
  have payload := covers.payload
  have small := covers.written_lt
  rcases covers.streamOut_cases with ⟨_, same⟩ | ⟨admitted, pushed⟩
  · exact same
  · obtain ⟨_, past, inside⟩ := (covers.admission_iff index).mp admitted
    have counted : receiver.streamOut.bytesWritten = receiver.streamOut.bytesRead + _ :=
      confined.valid.counted
    have word := confined.word
    have reaches := covers.reaches
    have written : receiver.reassembler.writePtr = receiver.streamOut.bytesWritten :=
      confined.written
    have edge : receiver.reassembler.windowEnd =
      receiver.streamOut.bytesRead + receiver.reassembler.capacity := rfl
    have endFits : index + seg.payload.str.length < 2 ^ 64 := by
      by_contra long
      unfold SizeT.add at past
      omega
    -- the window's end has wrapped to a position before the bytes read
    have wrapped : SizeT.add receiver.reassembler.output.bytesRead
        receiver.reassembler.capacity = receiver.reassembler.windowEnd - 2 ^ 64 := by
      change (receiver.streamOut.bytesRead + _) % 2 ^ 64 = _
      omega
    rw [SizeT.add_of_lt endFits] at past
    have cut : SizeT.add receiver.reassembler.output.bytesRead
        receiver.reassembler.capacity < SizeT.add index seg.payload.str.length := by
      rw [wrapped, SizeT.add_of_lt endFits]
      omega
    have behind : index ≤ receiver.reassembler.writePtr →
        index + (receiver.reassembler.trimmed seg.payload.str index).length ≤
          receiver.reassembler.writePtr := by
      intro _
      unfold StreamReassembler.trimmed
      rw [if_pos cut, wrapped, SizeT.sub_of_le (by omega) (by omega)]
      have kept := List.length_take_le
        (receiver.reassembler.windowEnd - 2 ^ 64 - index) seg.payload.str
      omega
    rw [pushed, confined.push_cut behind cut]
    rfl

theorem CoversNext.advances_iff :
    receiver.absoluteAckno < (receiver.segmentReceived seg).absoluteAckno ↔
      receiver.reassembler.windowEnd < 2 ^ 64 ∧ index + seg.payload.str.length < 2 ^ 64 := by
  constructor
  · intro advanced
    by_contra wraps
    have same := covers.stuck (by omega)
    unfold absoluteAckno at advanced
    rw [same] at advanced
    exact Nat.lt_irrefl _ advanced
  · rintro ⟨windowFits, endFits⟩
    exact covers.advances windowFits endFits

end

/-- A segment that covers the next number moves the acknowledgement exactly if it has no
SYN and neither the end of the window nor the end of its payload leaves `size_t`. -/
theorem coverage_advances_iff {capacity : Nat} (word : capacity < 2 ^ 64)
    {isn : WrappingInt32} {source : List Byte} {session : Session}
    (reached : (sessions capacity (CutFrom isn source)).Reachable session)
    (known : session.receiver.ackno ≠ none)
    (running : session.receiver.streamOut.inputEnded = false)
    (window : 0 < session.receiver.windowSize) {seg : TCPSegment} {index : Nat}
    (consistent : Consistent isn source index seg)
    (short : seg.lengthInSequenceSpace < 2 ^ 31)
    (starts : absoluteSeqno seg index ≤ session.receiver.absoluteAckno)
    (reaches : session.receiver.absoluteAckno <
      absoluteSeqno seg index + seg.lengthInSequenceSpace) :
    session.receiver.ackno = some (wrap session.receiver.absoluteAckno isn) ∧
      (session.receiver.absoluteAckno <
          (session.receiver.segmentReceived seg).absoluteAckno ↔
        seg.header.syn = false ∧
          session.receiver.streamOut.bytesRead + capacity < 2 ^ 64 ∧
          index + seg.payload.str.length < 2 ^ 64) := by
  obtain ⟨sheltered, phase⟩ := sessions_answering word reached
  have confined := sheltered.confined
  have positive : 0 < capacity := by
    have size := windowSize_eq_sub confined
    rw [sheltered.room] at size
    omega
  have edge : session.receiver.reassembler.windowEnd =
      session.receiver.streamOut.bytesRead + capacity := by
    rw [← sheltered.room]
    rfl
  rcases phase positive with waiting | answering
  · exact absurd waiting.ack known
  refine ⟨answering.ack, ?_⟩
  unfold absoluteSeqno at starts reaches
  unfold TCPSegment.lengthInSequenceSpace at short reaches
  have position : session.receiver.absoluteAckno =
      1 + session.receiver.streamOut.bytesWritten := by
    unfold absoluteAckno
    rw [running, if_neg Bool.false_ne_true, Nat.add_zero]
  cases syn : seg.header.syn with
  | true =>
      rw [segmentReceived_repeated syn (answering.running running).1]
      simp
  | false =>
      rw [syn] at starts reaches short
      simp only [Bool.false_eq_true, if_false, Nat.add_zero] at starts reaches short
      have front : session.receiver.streamOut.bytesWritten < 2 ^ 64 :=
        Nat.lt_of_le_of_lt (Nat.le_of_eq confined.written.symm) confined.front
      have covers : CoversNext isn source session.receiver seg index :=
        ⟨answering, confined, running, window, consistent, syn, by omega,
          unwrap_wrap isn (by omega) (by omega) (by omega), by omega, by omega⟩
      rw [covers.advances_iff, edge]
      exact (and_iff_right rfl).symm

def partlyRead : Session :=
  (sessions 1 (CutFrom ⟨7⟩ [97, 98])).run { receiver := new 1 }
    [.segment ⟨{ seqno := ⟨7⟩, syn := true }, .ofString [97, 98]⟩, .read 1]

theorem partlyRead_reachable :
    (sessions 1 (CutFrom ⟨7⟩ [97, 98])).Reachable partlyRead := by
  refine Machine.reachable_run _ _ ?_
  exact ⟨⟨by decide, 0, by decide⟩, trivial, trivial⟩

theorem coverage_advances_iff_reread :
    partlyRead.receiver.absoluteAckno <
      (partlyRead.receiver.segmentReceived
        ⟨{ seqno := ⟨8⟩, fin := true }, .ofString [97, 98]⟩).absoluteAckno := by
  have consistent : Consistent ⟨7⟩ [97, 98] 0
      ⟨{ seqno := ⟨8⟩, fin := true }, .ofString [97, 98]⟩ := by
    decide
  exact (coverage_advances_iff (by decide) partlyRead_reachable (by decide) (by decide)
    (by decide) consistent (by decide) (by decide) (by decide)).2.mpr (by decide)

/-- The SYN segment sent again, whole: the window is open and the acknowledgement stays
where it is. -/
theorem repeated_syn_makes_no_progress :
    ∃ session, (sessions 1 (CutFrom ⟨7⟩ [97, 98])).Reachable session ∧
      ∃ seg, Consistent ⟨7⟩ [97, 98] 0 seg ∧ seg.lengthInSequenceSpace < 2 ^ 31 ∧
        session.receiver.ackno ≠ none ∧
        session.receiver.streamOut.inputEnded = false ∧
        0 < session.receiver.windowSize ∧
        absoluteSeqno seg 0 ≤ session.receiver.absoluteAckno ∧
        session.receiver.absoluteAckno < absoluteSeqno seg 0 + seg.lengthInSequenceSpace ∧
        ¬session.receiver.absoluteAckno <
          (session.receiver.segmentReceived seg).absoluteAckno := by
  refine ⟨_, partlyRead_reachable,
    ⟨{ seqno := ⟨7⟩, syn := true }, .ofString [97, 98]⟩, ?_⟩
  decide

end Sponge.TCPReceiver
