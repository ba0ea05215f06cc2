import Sponge.TCPReceiver
import Sponge.TCPSender

namespace Sponge

inductive TCPReceiverStateSummary where
  | error
  | listen
  | synRecv
  | finRecv
  deriving DecidableEq, Repr

inductive TCPSenderStateSummary where
  | error
  | closed
  | synSent
  | synAcked
  | finSent
  | finAcked
  deriving DecidableEq, Repr

namespace TCPReceiverStateSummary

def text : TCPReceiverStateSummary → String
  | error => "error (connection was reset)"
  | listen => "waiting for SYN: ackno is empty"
  | synRecv => "SYN received (ackno exists), and input to stream hasn't ended"
  | finRecv => "input to stream has ended"

end TCPReceiverStateSummary

namespace TCPSenderStateSummary

def text : TCPSenderStateSummary → String
  | error => "error (connection was reset)"
  | closed => "waiting for stream to begin (no SYN sent)"
  | synSent => "stream started but nothing acknowledged"
  | synAcked => "stream ongoing"
  | finSent => "stream finished (FIN sent) but not fully acknowledged"
  | finAcked => "stream finished and fully acknowledged"

end TCPSenderStateSummary

def TCPReceiver.stateSummary (receiver : TCPReceiver) : TCPReceiverStateSummary :=
  if receiver.streamOut.error then .error
  else if receiver.ackno = none then .listen
  else if receiver.streamOut.inputEnded then .finRecv
  else .synRecv

def TCPSender.stateSummary (sender : TCPSender) : TCPSenderStateSummary :=
  if sender.streamIn.error then .error
  else if sender.nextSeqnoAbsolute = 0 then .closed
  else if sender.nextSeqnoAbsolute = sender.bytesInFlight then .synSent
  else if !sender.streamIn.eof then .synAcked
  else if sender.nextSeqnoAbsolute < sender.streamIn.bytesWritten + 2 then .synAcked
  else if sender.bytesInFlight ≠ 0 then .finSent
  else .finAcked

end Sponge
