import NetworkAnalyse.Lib.Prog
import NetworkAnalyse.Lib.Interleave
import NetworkAnalyse.Lib.BoundedMap
import NetworkAnalyse.Lib.Stopwatch
import NetworkAnalyse.Lib.DataSection
import NetworkAnalyse.Lib.Bytes
import NetworkAnalyse.Lib.RingBuf
import NetworkAnalyse.Ebpf.Helpers
import NetworkAnalyse.Ebpf.Client
import NetworkAnalyse.Ebpf.ConnectTime
import NetworkAnalyse.Ebpf.Attempts
import NetworkAnalyse.Ebpf.MinUs
import NetworkAnalyse.Ebpf.Service
import NetworkAnalyse.Ebpf.Callbacks
import NetworkAnalyse.Xdp.Kern
import NetworkAnalyse.Xdp.Monitor
import NetworkAnalyse.Xdp.Parsing
import NetworkAnalyse.Loader.Main
import NetworkAnalyse.Loader.Runs
import NetworkAnalyse.Ebpf.Texts
import NetworkAnalyse.Server.Client
import NetworkAnalyse.Server.Epoll
import NetworkAnalyse.Server.Exchange
import NetworkAnalyse.Server.Ownership
import NetworkAnalyse.Server.Receive
import NetworkAnalyse.Ebpf.Main
import NetworkAnalyse.Tools.ExitStatus
import NetworkAnalyse.Shm.Channel
import NetworkAnalyse.Shm.Safety
import NetworkAnalyse.Shm.Signal
import NetworkAnalyse.Proxy.Session
import NetworkAnalyse.Loader.Unload
import NetworkAnalyse.Xdp.Print
import NetworkAnalyse.Lib.CharArray
import NetworkAnalyse.Loader.Params
import NetworkAnalyse.Ebpf.Options
import NetworkAnalyse.Xdp.Cursor
import NetworkAnalyse.Xdp.Rewrite
import NetworkAnalyse.Lib.Long
import NetworkAnalyse.Utils.Clock
import NetworkAnalyse.Xdp.Vlan
import NetworkAnalyse.Server.StackTime
import NetworkAnalyse.Loader.LongOptions
import NetworkAnalyse.Lib.Circular
import NetworkAnalyse.Libbpf.Ringbuf
import NetworkAnalyse.Xdp.Layout
import NetworkAnalyse.Xdp.Smp
import NetworkAnalyse.Libbpf.PerfBuffer
import NetworkAnalyse.Libbpf.Delivery
import NetworkAnalyse.Shm.Round
import NetworkAnalyse.Ebpf.Layout
import NetworkAnalyse.Ebpf.Tracer
