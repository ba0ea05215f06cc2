import Sponge.Data.Machine
import Sponge.Data.Execution
import Sponge.Data.Interaction
import Sponge.Data.Shared
import Sponge.Data.SizeT
import Sponge.Data.OrderedMap
import Sponge.Data.Fragment
import Sponge.Data.Tiling
import Sponge.Data.BigEndian
import Sponge.Data.OnesComplement
import Sponge.WrappingIntegers
import Sponge.ByteStream
import Sponge.ByteStream.Runs
import Sponge.StreamReassembler
import Sponge.StreamReassembler.Loops
import Sponge.StreamReassembler.Invariant
import Sponge.StreamReassembler.Content
import Sponge.StreamReassembler.Refinement
import Sponge.StreamReassembler.Order
import Sponge.StreamReassembler.Confined
import Sponge.StreamReassembler.Memory
import Sponge.StreamReassembler.Provenance
import Sponge.Util.Buffer
import Sponge.Util.Buffer.Runs
import Sponge.Util.FileDescriptor
import Sponge.Util.FileDescriptor.Ownership
import Sponge.Util.Socket
import Sponge.Util.EventLoop
import Sponge.Util.EventLoop.Steps
import Sponge.Util.EventLoop.Matching
import Sponge.Util.EventLoop.Lifetime
import Sponge.Util.EventLoop.Service
import Sponge.Util.Parser
import Sponge.Util.Codec
import Sponge.Util.InternetChecksum
import Sponge.TCPHelpers.TCPHeader
import Sponge.TCPHelpers.TCPSegment
import Sponge.TCPHelpers.Wire
import Sponge.TCPHelpers.TCPState
import Sponge.TCPReceiver
import Sponge.TCPReceiver.Robustness
import Sponge.TCPReceiver.Provenance
import Sponge.TCPReceiver.Finished
import Sponge.TCPReceiver.Consistency
import Sponge.TCPReceiver.Promises
import Sponge.TCPReceiver.Coverage
import Sponge.TCPReceiver.Advance
import Sponge.TCPSender
import Sponge.TCPSender.Ledger
import Sponge.TCPSender.Stock
import Sponge.TCPSender.Runs
import Sponge.TCPSender.Exhaustion
import Sponge.TCPSender.Window
import Sponge.TCPSender.Timer
import Sponge.TCPSender.Pacing
import Sponge.TCPSender.Acks
import Sponge.TCPSender.Summary
import Sponge.Link
import Sponge.Link.Progress
import Sponge.Link.Wire
import Sponge.Link.Agreement
import Sponge.Link.FlowControl
import Sponge.Link.Lossless
import Sponge.Link.Liveness
import Sponge.Apps.Webget
import Sponge.Apps.Webget.Success
