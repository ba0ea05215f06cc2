import Sponge.Data.Machine
import Sponge.StreamReassembler
import Sponge.TCPHelpers.TCPSegment

namespace Sponge

structure TCPReceiver where
  reassembler : StreamReassembler
  syn : Bool := false
  isn : UInt32 := 0
  begin : UInt32 := 0
  checkp : Nat := 0
  ack : Option WrappingInt32 := none
  deriving DecidableEq

namespace TCPReceiver

def new (capacity : Nat) : TCPReceiver :=
  { reassembler := .new capacity }

def streamOut (receiver : TCPReceiver) : ByteStream :=
  receiver.reassembler.streamOut

def ackno (receiver : TCPReceiver) : Option WrappingInt32 :=
  receiver.ack

def windowSize (receiver : TCPReceiver) : Nat :=
  receiver.streamOut.remainingCapacity

/-- The start of `segment_received`: a SYN sets the initial sequence number, and
`_begin` becomes the number of the first payload byte, counted from the SYN. -/
def locate (receiver : TCPReceiver) (seg : TCPSegment) : TCPReceiver :=
  if seg.header.syn then
    { receiver with
      syn := true
      isn := seg.header.seqno.rawValue
      begin := seg.header.seqno.rawValue }
  else
    { receiver with begin := seg.header.seqno.rawValue - 1 }

/-- The index at which the located segment is pushed, or nothing if one of the
guards returns first. -/
def admission (receiver : TCPReceiver) (seg : TCPSegment) : Option Nat :=
  if !receiver.syn then
    none
  else
    let len := seg.lengthInSequenceSpace - (if seg.header.syn then 1 else 0) -
      (if seg.header.fin then 1 else 0)
    let index := unwrap ⟨receiver.begin⟩ ⟨receiver.isn⟩ receiver.checkp
    if SizeT.add index len < receiver.checkp ∨
        SizeT.add receiver.checkp receiver.windowSize ≤ index then
      none
    else
      some index

/-- The rest of `segment_received`. When the stream has ended, the receiver goes
back to waiting for a SYN but keeps its reassembler. -/
def deliver (receiver : TCPReceiver) (seg : TCPSegment) (index : Nat) : TCPReceiver :=
  let reassembler :=
    receiver.reassembler.pushSubstring seg.payload.copy index seg.header.fin
  let checkp := reassembler.streamOut.bytesWritten
  if reassembler.streamOut.inputEnded then
    { receiver with
      reassembler := reassembler
      ack := some (wrap (checkp + 2) ⟨receiver.isn⟩)
      syn := false
      checkp := 0
      begin := 0 }
  else
    { receiver with
      reassembler := reassembler
      checkp := checkp
      ack := some (wrap (checkp + 1) ⟨receiver.isn⟩) }

def segmentReceived (receiver : TCPReceiver) (seg : TCPSegment) : TCPReceiver :=
  if seg.header.syn && receiver.syn then
    -- a repeated SYN is only reported on the terminal
    receiver
  else
    let receiver := receiver.locate seg
    match receiver.admission seg with
    | none => receiver
    | some index => receiver.deliver seg index

def readOut (receiver : TCPReceiver) (len : Nat) : TCPReceiver :=
  { receiver with reassembler := receiver.reassembler.readOut len }

/-! ## What one segment does -/

def pushIndex (receiver : TCPReceiver) (seg : TCPSegment) : Option Nat :=
  if seg.header.syn && receiver.syn then none
  else (receiver.locate seg).admission seg

theorem payload_length (seg : TCPSegment) :
    seg.lengthInSequenceSpace - (if seg.header.syn then 1 else 0) -
      (if seg.header.fin then 1 else 0) = seg.payload.str.length := by
  unfold TCPSegment.lengthInSequenceSpace
  omega

section Locate

variable (receiver : TCPReceiver) (seg : TCPSegment)

@[simp] theorem locate_reassembler :
    (receiver.locate seg).reassembler = receiver.reassembler := by
  unfold locate
  split <;> rfl

@[simp] theorem locate_checkp : (receiver.locate seg).checkp = receiver.checkp := by
  unfold locate
  split <;> rfl

@[simp] theorem locate_ack : (receiver.locate seg).ack = receiver.ack := by
  unfold locate
  split <;> rfl

@[simp] theorem locate_windowSize :
    (receiver.locate seg).windowSize = receiver.windowSize := by
  unfold windowSize streamOut
  rw [locate_reassembler]

theorem deliver_reassembler (index : Nat) :
    (receiver.deliver seg index).reassembler =
      receiver.reassembler.pushSubstring seg.payload.str index seg.header.fin := by
  unfold deliver
  dsimp only
  split <;> rfl

end Locate

theorem admission_eq_some_iff (receiver : TCPReceiver) (seg : TCPSegment) (index : Nat) :
    receiver.admission seg = some index ↔
      receiver.syn = true ∧
        index = unwrap ⟨receiver.begin⟩ ⟨receiver.isn⟩ receiver.checkp ∧
        receiver.checkp ≤ SizeT.add index seg.payload.str.length ∧
        index < SizeT.add receiver.checkp receiver.windowSize := by
  unfold admission
  rw [payload_length]
  cases syn : receiver.syn with
  | false => simp
  | true =>
      simp only [Bool.not_true, Bool.false_eq_true, if_false, true_and]
      split
      next refused =>
        simp only [reduceCtorEq, false_iff]
        rintro ⟨rfl, reaches, inside⟩
        omega
      next admitted =>
        rw [Option.some.injEq]
        constructor
        · rintro rfl
          exact ⟨rfl, by omega, by omega⟩
        · exact fun location => location.1.symm

theorem segmentReceived_cases (receiver : TCPReceiver) (seg : TCPSegment) :
    (receiver.pushIndex seg = none ∧
        ((seg.header.syn = true ∧ receiver.syn = true ∧
            receiver.segmentReceived seg = receiver) ∨
          (¬(seg.header.syn = true ∧ receiver.syn = true) ∧
            (receiver.locate seg).admission seg = none ∧
            receiver.segmentReceived seg = receiver.locate seg))) ∨
      ∃ index, receiver.pushIndex seg = some index ∧
        ¬(seg.header.syn = true ∧ receiver.syn = true) ∧
        (receiver.locate seg).admission seg = some index ∧
        receiver.segmentReceived seg = (receiver.locate seg).deliver seg index := by
  unfold pushIndex segmentReceived
  by_cases repeated : (seg.header.syn && receiver.syn) = true
  · rw [if_pos repeated, if_pos repeated]
    rw [Bool.and_eq_true] at repeated
    exact Or.inl ⟨rfl, Or.inl ⟨repeated.1, repeated.2, rfl⟩⟩
  · rw [if_neg repeated, if_neg repeated]
    rw [Bool.and_eq_true] at repeated
    cases admitted : (receiver.locate seg).admission seg with
    | none => exact Or.inl ⟨rfl, Or.inr ⟨repeated, rfl, by simp only [admitted]⟩⟩
    | some index => exact Or.inr ⟨index, rfl, repeated, rfl, by simp only [admitted]⟩

theorem segmentReceived_repeated {receiver : TCPReceiver} {seg : TCPSegment}
    (syn : seg.header.syn = true) (started : receiver.syn = true) :
    receiver.segmentReceived seg = receiver := by
  -- The early return: a repeated SYN takes its payload with it.
  unfold segmentReceived
  rw [syn, started, Bool.and_self, if_pos rfl]

theorem segmentReceived_unstarted {receiver : TCPReceiver} {seg : TCPSegment}
    (data : seg.header.syn = false) (unstarted : receiver.syn = false) :
    receiver.segmentReceived seg =
      { receiver with begin := seg.header.seqno.rawValue - 1 } := by
  simp [segmentReceived, locate, admission, data, unstarted]

/-! ## Runs -/

/-- A receiver together with what an observer notes down: the bytes its reader has
taken, and whether a SYN segment has arrived. -/
structure Session where
  receiver : TCPReceiver
  consumed : List Byte := []
  synArrived : Bool := false
  deriving DecidableEq

inductive Event where
  | segment (seg : TCPSegment)
  | read (len : Nat)
  deriving DecidableEq

def Session.next (session : Session) : Event → Session
  | .segment seg =>
      { session with
        receiver := session.receiver.segmentReceived seg
        synArrived := session.synArrived || seg.header.syn }
  | .read len =>
      { session with
        receiver := session.receiver.readOut len
        consumed := session.consumed ++ (session.receiver.streamOut.read len).1 }

def sessions (capacity : Nat) (allowed : Session → Event → Prop) :
    Machine Session Event where
  init := { receiver := new capacity }
  guard := allowed
  next := Session.next

end TCPReceiver

end Sponge
