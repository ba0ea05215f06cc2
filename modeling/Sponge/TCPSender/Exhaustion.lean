import Sponge.TCPSender.Runs

namespace Sponge.TCPSender

/-! When the loop of `fill_window` stops, and what its first segment can be. -/

theorem turn_nextSeqno_lt {sender : TCPSender} {endSeq : Nat}
    (sends : 0 < (sender.makeSegment endSeq).1.lengthInSequenceSpace) :
    sender.nextSeqno < (sender.turn endSeq).nextSeqno := by
  rw [turn_nextSeqno]
  omega

theorem idle_cause {sender : TCPSender} {endSeq : Nat} (running : sender.nextSeqno < endSeq)
    (idle : (sender.makeSegment endSeq).1.lengthInSequenceSpace = 0) :
    sender.nextSeqno ≠ 0 ∧ sender.stream.bts = [] ∧
      (sender.finSend = true ∨ sender.stream.endFlag = false) := by
  have positive := sender.dataSize_pos endSeq running
  have length := idle
  rw [makeSegment_length] at length
  have sent : sender.nextSeqno ≠ 0 := by
    intro zero
    rw [if_pos zero] at length
    omega
  have empty : sender.stream.bts = [] := List.eq_nil_of_length_eq_zero (by omega)
  have noFin : sender.closes endSeq = false := by
    by_contra closing
    rw [Bool.not_eq_false] at closing
    rw [if_pos closing] at length
    omega
  refine ⟨sent, empty, ?_⟩
  have unmade : (sender.loadSegment endSeq).1.lengthInSequenceSpace = 0 := by
    simp [loadSegment, TCPSegment.lengthInSequenceSpace, ByteStream.read_eq, empty, sent]
  rw [closes, unmade, ByteStream.read_of_empty empty] at noFin
  cases finished : sender.finSend with
  | true => exact Or.inl rfl
  | false =>
      cases ended : sender.stream.endFlag with
      | false => exact Or.inr rfl
      | true =>
          simp [finished, ByteStream.eof, ByteStream.bufferEmpty, ended, empty, running]
            at noFin

/-- The loop runs until the window is used up or there is nothing to send: the fuel
is never what stops it. -/
theorem fillLoop_exhausts (fuel : Nat) {endSeq : Nat} (sender : TCPSender)
    (enough : endSeq - sender.nextSeqno ≤ fuel) :
    endSeq ≤ (fillLoop fuel endSeq sender).nextSeqno ∨
      ((fillLoop fuel endSeq sender).nextSeqno ≠ 0 ∧
        (fillLoop fuel endSeq sender).stream.bts = [] ∧
        ((fillLoop fuel endSeq sender).finSend = true ∨
          (fillLoop fuel endSeq sender).stream.endFlag = false)) := by
  induction fuel generalizing sender with
  | zero => exact Or.inl (by rw [fillLoop]; omega)
  | succ fuel induction =>
      unfold fillLoop
      split
      next running =>
        dsimp only
        split
        next sends =>
          have grows := turn_nextSeqno_lt sends
          exact induction (sender.turn endSeq) (by omega)
        next quiet =>
          have idle : (sender.makeSegment endSeq).1.lengthInSequenceSpace = 0 := by omega
          rw [sender.makeSegment_idle endSeq running idle]
          exact Or.inr (idle_cause running idle)
      next full => exact Or.inl (Nat.not_lt.mp full)

theorem fillWindow_exhausts (sender : TCPSender) :
    sender.fillWindow.finSend = true ∨
      sender.ackS + sender.window.toNat ≤ sender.fillWindow.nextSeqno ∨
      (sender.fillWindow.nextSeqno ≠ 0 ∧ sender.fillWindow.stream.bts = [] ∧
        sender.fillWindow.stream.endFlag = false) := by
  unfold fillWindow
  split
  next finished => exact Or.inl finished
  next =>
    rcases fillLoop_exhausts _ sender (Nat.le_refl _) with
      full | ⟨sent, empty, finished | running⟩
    · exact Or.inr (Or.inl full)
    · exact Or.inl finished
    · exact Or.inr (Or.inr ⟨sent, empty, running⟩)

/-! ## The opening of a connection -/

/-- As long as no acknowledgement arrives before the SYN is out, the SYN is sent
into a window of one: it carries at most one byte and no FIN. -/
structure Opening (sender : TCPSender) (created : List TCPSegment) : Prop where
  window : sender.window ≠ 0
  before : created = [] → sender.window = 1
  first : ∀ seg rest, created = seg :: rest →
    seg.payload.str.length ≤ 1 ∧ seg.header.fin = false
  error : sender.stream.error = false

theorem opening_new (capacity : Nat) (retxTimeout : UInt16) (isn : WrappingInt32) :
    Opening (new capacity retxTimeout isn) [] where
  window := by simp [new]
  before := fun _ => rfl
  first := fun _ _ split => by simp at split
  error := rfl

section

variable {sender other : TCPSender} {accepted : List Byte} {created : List TCPSegment}

theorem Opening.of_same (opening : Opening sender created)
    (window : other.window = sender.window)
    (error : other.stream.error = sender.stream.error) : Opening other created :=
  ⟨by rw [window]; exact opening.window, by rw [window]; exact opening.before,
    opening.first, by rw [error]; exact opening.error⟩

theorem Opening.turn {endSeq : Nat} (opening : Opening sender created)
    (fresh : created = [] → endSeq = 1 ∧ sender.nextSeqno = 0) :
    Opening (sender.turn endSeq) (created ++ [(sender.makeSegment endSeq).1]) := by
  refine ⟨?_, ?_, ?_, ?_⟩
  · rw [turn_window]
    exact opening.window
  · intro empty
    simp at empty
  · intro seg rest split
    cases created with
    | cons old more =>
        obtain ⟨rfl, _⟩ := List.cons.inj split
        exact opening.first _ more rfl
    | nil =>
        obtain ⟨rfl, _⟩ := List.cons.inj split
        obtain ⟨rfl, zero⟩ := fresh rfl
        constructor
        · rw [makeSegment_payload, List.length_take, dataSize, zero]
          simp [TCPConfig.maxPayloadSize]
        · have syn : 1 ≤ (sender.loadSegment 1).1.lengthInSequenceSpace := by
            simp [loadSegment, TCPSegment.lengthInSequenceSpace, zero]
          rw [makeSegment_eq]
          simp only [closes, zero, Bool.and_eq_false_iff, decide_eq_false_iff_not]
          exact Or.inr (by omega)
  · rw [turn_stream, ByteStream.read_eq]
    exact opening.error

theorem Opening.fillWindow (opening : Opening sender created)
    (ledger : Ledger sender accepted created) (stock : Stock sender created)
    {new : List TCPSegment}
    (out : sender.fillWindow.segmentsOut = sender.segmentsOut ++ new) :
    Opening sender.fillWindow (created ++ new) := by
  unfold TCPSender.fillWindow at out ⊢
  split at out
  next finished =>
    have nothing : new = [] := by simpa using out
    rw [if_pos finished, nothing, List.append_nil]
    exact opening
  next unfinished =>
    rw [if_neg unfinished]
    have fresh : created = [] →
        sender.ackS + sender.window.toNat = 1 ∧ sender.nextSeqno = 0 := by
      intro empty
      have acked := stock.acked
      have total := ledger.total
      rw [empty, Tiling.extent_nil] at total
      rw [opening.before empty]
      change sender.ackS + 1 = 1 ∧ _
      omega
    obtain ⟨made, sent, opening, _⟩ := fillLoop_invariant
      (fun sender' segs => Opening sender' segs ∧ (segs = [] →
        sender.ackS + sender.window.toNat = 1 ∧ sender'.nextSeqno = 0))
      (fun _ _ ⟨opening, fresh⟩ _ _ => ⟨opening.turn fresh, fun empty => by simp at empty⟩)
      (sender.ackS + sender.window.toNat - sender.nextSeqno) sender created
      ⟨opening, fresh⟩
    rw [out] at sent
    rwa [List.append_cancel_left sent]

theorem Opening.ackReceived (opening : Opening sender created) (sent : created ≠ [])
    (ackno : WrappingInt32) (windowSize : UInt16) :
    Opening (sender.ackReceived ackno windowSize) created := by
  rcases sender.ackReceived_cases ackno windowSize with same | ⟨newAck, unwrapped, possible⟩
  · rwa [same]
  · rw [ackReceived_eq unwrapped possible]
    refine ⟨?_, fun empty => absurd empty sent, opening.first, opening.error⟩
    dsimp only
    split
    next nonzero => exact nonzero
    next => decide

end

end Sponge.TCPSender
