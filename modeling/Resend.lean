import Resend.Lib.Handler
import Resend.Lib.Machine
import Resend.Lib.Word
import Resend.Lib.Window
import Resend.Udp.Wire
import Resend.Udp.AckInfoCollector
import Resend.Udp.AckRuns
import Resend.Udp.AckRace
import Resend.Udp.Connection
import Resend.Udp.SimpleConnection
import Resend.Udp.ComplexConnection
import Resend.Udp.Lifecycle
import Resend.Udp.WriterSteps
import Resend.Udp.SendOutcome
import Resend.Udp.RecvOutcome
import Resend.Udp.RecvBuffer
import Resend.Udp.SendWindow
import Resend.Udp.Frames
import Resend.Udp.Packets
import Resend.Udp.WriterCursors
import Resend.Udp.OpenWindow
import Resend.Udp.SenderLoop
import Resend.Udp.ReaderSteps
import Resend.Udp.Transfer
import Resend.Udp.Received
import Resend.Udp.SimpleTransfer
import Resend.Udp.ComplexTransfer
import Resend.Udp.Delivery
import Resend.Udp.Identity
import Resend.Udp.Stale
import Resend.Udp.WaitAck
import Resend.Udp.Table
import Resend.Udp.Refusal
import Resend.Udp.Roles
import Resend.Udp.Bounds
import Resend.Udp.Dispatch
import Resend.Udp.Endpoint
import Resend.Udp.Locality
import Resend.Socks.TcpHandler
import Resend.Socks.Segmentation
import Resend.Socks.WriteQueue
import Resend.Socks.Tunnel
import Resend.Socks.Isolation
import Resend.Lib.Buckets
import Resend.Udp.TimerWheel
import Resend.Udp.TimerExpiry
import Resend.Udp.TimerThreads
import Resend.Lib.LinkedList
import Resend.Udp.LinkSend
import Resend.Udp.RoundTrip
import Resend.Udp.TransferRange
import Resend.Udp.WindowSize
import Resend.Lib.Threads
import Resend.Udp.SlotSearch
import Resend.Udp.LeftCursor
import Resend.Udp.ReaderThreads
import Resend.Udp.SenderThreads
import Resend.Udp.SourceRelease
import Resend.Socks.WriteCallback
import Resend.Socks.RequestParsing
import Resend.Udp.TimerWrap
import Resend.Udp.QueueWakeups
import Resend.Udp.BitmapSearch
import Resend.Udp.SListRuns
import Resend.Udp.BufferPool
import Resend.Udp.RedBlack
import Resend.Dns.UpstreamRuns
import Resend.Dns.Labels
import Resend.Dns.FormatName
import Resend.Lib.Memory
import Resend.Dns.Questions
import Resend.Dns.ResolverRuns
import Resend.Dns.Reply
