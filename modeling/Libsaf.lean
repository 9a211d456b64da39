import Libsaf.Machine
import Libsaf.Memory
import Libsaf.Fifo
import Libsaf.ByteOrder
import Libsaf.PrefixParser
import Libsaf.Buffer
import Libsaf.BufferQueue
import Libsaf.BufferInt
import Libsaf.IntCodec
import Libsaf.UnpackHandler
import Libsaf.UnpackStream
import Libsaf.EventLoop
import Libsaf.EPollPoller
import Libsaf.IOFd
import Libsaf.MachineInt
import Libsaf.HeapOrder
import Libsaf.TimerHeap
import Libsaf.TimerQueue
import Libsaf.TimerRun
import Libsaf.TimerOrder
import Libsaf.AsyncLogger
import Libsaf.TcpConnection
import Libsaf.MessageOrder
import Libsaf.TcpOutput
import Libsaf.TcpLifecycle
import Libsaf.TcpWire
import Libsaf.TcpSession
import Libsaf.Dispatch
import Libsaf.ConnectionPtr
import Libsaf.ServerTable
import Libsaf.TcpServer
import Libsaf.ServerStop
import Libsaf.TcpConnector
import Libsaf.TcpClient
import Libsaf.ClientConnection
import Libsaf.ClientDisconnect
import Libsaf.ThreadPool
import Libsaf.UdpConnection
import Libsaf.UdpServer
import Libsaf.UdpTraffic
import Libsaf.UdpCallbacks
import Libsaf.UdpExpiry
import Libsaf.LoggerStop
import Libsaf.LoopTimer
import Libsaf.TimerCancel
import Libsaf.TimerLifetime
import Libsaf.SharedWork
import Libsaf.SharedTargets
import Libsaf.TargetLifetime
import Libsaf.ClientReconnect
import Libsaf.EventLoopCluster
import Libsaf.ClusterStop
import Libsaf.WorkTree
import Libsaf.LoopExit
import Libsaf.Pipeline
import Libsaf.PeerFailure
import Libsaf.BufferRead
import Libsaf.BufferGrowth
import Libsaf.UdpReceive
import Libsaf.TimerPass
import Libsaf.TimerSettle
import Libsaf.Rotation
import Libsaf.NextLoop
import Libsaf.Decimal
import Libsaf.Convert
import Libsaf.LogRecord
import Libsaf.InetAddress
import Libsaf.AppendFile
import Libsaf.SerialNumber
import Libsaf.IkcpSeg
import Libsaf.Ikcp
import Libsaf.IkcpFlush
import Libsaf.IkcpWindow
import Libsaf.IkcpCall
import Libsaf.IkcpBound
import Libsaf.IkcpWire
import Libsaf.IkcpSending
import Libsaf.IkcpDatagram
import Libsaf.SelectiveRepeat
import Libsaf.IkcpMessage
import Libsaf.IkcpSelective
import Libsaf.IkcpLink
import Libsaf.IkcpRetry
import Libsaf.IkcpRound
import Libsaf.IkcpTimer
import Libsaf.PingPong
import Libsaf.TimerSpacing
import Libsaf.LoopPass
