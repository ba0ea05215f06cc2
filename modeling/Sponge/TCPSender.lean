import Sponge.Data.Machine
import Sponge.Data.OrderedMap
import Sponge.TCPHelpers.TCPSegment

namespace Sponge

def TCPConfig.maxPayloadSize : Nat := 1452

/-- `ackS` and `nextSeqno` are absolute and unbounded here, as the counters of the
streams are. -/
structure TCPSender where
  isn : WrappingInt32
  ackS : Nat := 0
  segmentsOut : List TCPSegment := []
  segmentsNoack : OrderedMap TCPSegment := .empty
  initialRetransmissionTimeout : UInt32
  rtoBase : UInt32
  stream : ByteStream
  nextSeqno : Nat := 0
  window : UInt16 := 1
  windowZero : Bool := false
  finSend : Bool := false
  start : Bool := false
  retransnum : UInt32 := 0
  rto : UInt32
  deriving DecidableEq

namespace TCPSender

def new (capacity : Nat) (retxTimeout : UInt16) (isn : WrappingInt32) : TCPSender :=
  { isn := isn
    initialRetransmissionTimeout := retxTimeout.toUInt32
    rtoBase := retxTimeout.toUInt32
    stream := .new capacity
    rto := retxTimeout.toUInt32 }

def streamIn (sender : TCPSender) : ByteStream :=
  sender.stream

def bytesInFlight (sender : TCPSender) : Nat :=
  SizeT.sub sender.nextSeqno sender.ackS

def consecutiveRetransmissions (sender : TCPSender) : UInt32 :=
  sender.retransnum

def nextSeqnoAbsolute (sender : TCPSender) : Nat :=
  sender.nextSeqno

/-! The body of the loop of `fill_window`, in the order of the source. -/

def dataSize (sender : TCPSender) (endSeq : Nat) : Nat :=
  let wSize := endSeq - sender.nextSeqno
  if TCPConfig.maxPayloadSize ≤ wSize then TCPConfig.maxPayloadSize else wSize

def loadSegment (sender : TCPSender) (endSeq : Nat) : TCPSegment × TCPSender :=
  let read := sender.stream.read (sender.dataSize endSeq)
  ({ header :=
      { syn := sender.nextSeqno == 0
        seqno := wrap sender.nextSeqno sender.isn }
     payload := .ofString read.1 },
    { sender with stream := read.2 })

def closeSegment (sender : TCPSender) (endSeq : Nat) (seg : TCPSegment) :
    TCPSegment × TCPSender :=
  if !sender.finSend && sender.streamIn.eof &&
      decide (sender.nextSeqno + seg.lengthInSequenceSpace < endSeq) then
    ({ seg with header := { seg.header with fin := true } },
      { sender with finSend := true })
  else
    (seg, sender)

def makeSegment (sender : TCPSender) (endSeq : Nat) : TCPSegment × TCPSender :=
  let loaded := sender.loadSegment endSeq
  loaded.2.closeSegment endSeq loaded.1

def transmit (sender : TCPSender) (seg : TCPSegment) : TCPSender :=
  let nextSeqno := sender.nextSeqno + seg.lengthInSequenceSpace
  { sender with
    nextSeqno := nextSeqno
    segmentsOut := sender.segmentsOut ++ [seg]
    start := true
    segmentsNoack := sender.segmentsNoack.insert nextSeqno seg }

/-- The loop of `fill_window`. Every turn but the last sends at least one sequence
number, so `fuel` need not exceed the room before `endSeq`. -/
def fillLoop : (fuel : Nat) → (endSeq : Nat) → TCPSender → TCPSender
  | 0, _, sender => sender
  | fuel + 1, endSeq, sender =>
      if sender.nextSeqno < endSeq then
        let made := sender.makeSegment endSeq
        if 0 < made.1.lengthInSequenceSpace then
          fillLoop fuel endSeq (made.2.transmit made.1)
        else
          made.2
      else
        sender

def fillWindow (sender : TCPSender) : TCPSender :=
  if sender.finSend then
    sender
  else
    let endSeq := sender.ackS + sender.window.toNat
    fillLoop (endSeq - sender.nextSeqno) endSeq sender

def ackReceived (sender : TCPSender) (ackno : WrappingInt32) (windowSize : UInt16) :
    TCPSender :=
  let newAck := unwrap ackno sender.isn sender.nextSeqno
  if sender.nextSeqno < newAck then
    sender
  else
    let sender :=
      if sender.ackS < newAck then
        { sender with
          rto := sender.initialRetransmissionTimeout
          retransnum := 0
          ackS := newAck
          segmentsNoack :=
            sender.segmentsNoack.eraseWhere (fun key => decide (key ≤ newAck)) }
      else sender
    let sender :=
      if windowSize ≠ 0 then { sender with window := windowSize }
      else { sender with windowZero := true, window := 1 }
    if sender.ackS = sender.nextSeqno then { sender with start := false } else sender

def tick (sender : TCPSender) (msSinceLastTick : Nat) : TCPSender :=
  if !sender.start then
    sender
  else if sender.rto.toNat ≤ msSinceLastTick then
    let rtoBase :=
      if sender.retransnum = 0 then sender.initialRetransmissionTimeout * 2
      else sender.rtoBase * 2
    let sender :=
      { sender with
        rtoBase := rtoBase
        rto := if sender.windowZero then sender.initialRetransmissionTimeout else rtoBase
        retransnum := sender.retransnum + 1 }
    match sender.segmentsNoack.begin? with
    | some entry =>
        { sender with
          segmentsOut := sender.segmentsOut ++ [entry.2]
          start := true }
    | none =>
        -- nothing to retransmit: only a message is printed
        sender
  else
    { sender with rto := sender.rto - UInt32.ofNat msSinceLastTick }

def emptySegment (seqno : WrappingInt32) : TCPSegment :=
  { header := { seqno := seqno } }

def sendEmptySegment (sender : TCPSender) : TCPSender :=
  { sender with
    segmentsOut := sender.segmentsOut ++
      [emptySegment (wrap sender.nextSeqno sender.isn)] }

/-! ## Runs -/

inductive Op where
  | write (data : List Byte)
  | endInput
  | fillWindow
  | ackReceived (ackno : WrappingInt32) (windowSize : UInt16)
  | tick (ms : Nat)
  | sendEmptySegment
  deriving DecidableEq

def perform (sender : TCPSender) : Op → TCPSender
  | .write data => { sender with stream := (sender.stream.write data).1 }
  | .endInput => { sender with stream := sender.stream.endInput }
  | .fillWindow => sender.fillWindow
  | .ackReceived ackno windowSize => sender.ackReceived ackno windowSize
  | .tick ms => sender.tick ms
  | .sendEmptySegment => sender.sendEmptySegment

def Op.accepted (sender : TCPSender) : Op → List Byte
  | .write data => data.take (sender.stream.write data).2
  | _ => []

/-- A segment put into `segments_out`, the operation that did it, and whether the
outgoing stream was at its end when the operation returned. -/
structure Emission where
  op : Op
  seg : TCPSegment
  eof : Bool
  deriving DecidableEq

/-- A sender together with what an observer notes down: every byte its stream
accepted and every segment it put out. -/
structure Trace where
  sender : TCPSender
  accepted : List Byte := []
  emitted : List Emission := []
  deriving DecidableEq

def Trace.next (trace : Trace) (op : Op) : Trace :=
  let sender := trace.sender.perform op
  { sender := sender
    accepted := trace.accepted ++ op.accepted trace.sender
    emitted := trace.emitted ++
      (sender.segmentsOut.drop trace.sender.segmentsOut.length).map
        (fun seg => ⟨op, seg, sender.streamIn.eof⟩) }

def created (emitted : List Emission) : List TCPSegment :=
  (emitted.filter (fun emission => decide (emission.op = .fillWindow))).map Emission.seg

def traces (capacity : Nat) (retxTimeout : UInt16) (isn : WrappingInt32) :
    Machine Trace Op where
  init := { sender := new capacity retxTimeout isn }
  guard := fun _ _ => True
  next := Trace.next

instance (capacity : Nat) (retxTimeout : UInt16) (isn : WrappingInt32) (trace : Trace)
    (op : Op) : Decidable ((traces capacity retxTimeout isn).guard trace op) :=
  .isTrue trivial

end TCPSender

end Sponge
