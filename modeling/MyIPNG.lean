import MyIPNG.Base.SequenceSpace
import MyIPNG.Shm.Queue
import MyIPNG.Shm.Records
import MyIPNG.Shm.Refinement
import MyIPNG.Shm.Crash
import MyIPNG.Tcp.RunIn
import MyIPNG.Tcp.RunOut
import MyIPNG.Base.Pieces
import MyIPNG.Tcp.Delivery
import MyIPNG.Tcp.Fin
import MyIPNG.Tcp.Shift
import MyIPNG.Base.Tiling
import MyIPNG.Ip4.Fragmentation
import MyIPNG.Ip4.RunIn
import MyIPNG.Ip4.Wire
import MyIPNG.Ip4.Reassembly
import MyIPNG.Ip4.RoundTrip
import MyIPNG.Utils.Address
import MyIPNG.Arp.Resolver
import MyIPNG.Base.Ledger
import MyIPNG.Arp.Correlation
import MyIPNG.Tcp.Server
import MyIPNG.Ip4.Soundness
import MyIPNG.Base.Heap
import MyIPNG.Ip4.RunOut
import MyIPNG.Ip4.Pending
import MyIPNG.Udp.Server
import MyIPNG.Tcp.Handshake
import MyIPNG.Tcp.Meta
import MyIPNG.Tcp.Threads
import MyIPNG.Tcp.Reset
import MyIPNG.Tcp.Established
import MyIPNG.Tcp.OpenOrder
import MyIPNG.Base.Ownership
import MyIPNG.Tcp.Lifetime
import MyIPNG.Tcp.Objects
import MyIPNG.Shm.Wrapping
import MyIPNG.Tcp.Sending
import MyIPNG.Tcp.Wire
import MyIPNG.Icmp.Server
import MyIPNG.Stack.EndToEnd
import MyIPNG.Arp.Resolution
import MyIPNG.Tcp.Origin
import MyIPNG.Tcp.Ports
import MyIPNG.Tcp.Clean
import MyIPNG.Tcp.Duplicate
import MyIPNG.Utils.TcpHelpers
import MyIPNG.Base.Reading
import MyIPNG.Tcp.Header
import MyIPNG.Tcp.Replies
import MyIPNG.Tcp.Life
import MyIPNG.Tcp.Mss
import MyIPNG.Tcp.ClientHandshake
import MyIPNG.Tcp.OwnFin
import MyIPNG.Tcp.OpenRequest
import MyIPNG.Ip4.Acceptance
import MyIPNG.Ip4.SizeLimit
import MyIPNG.Ip4.Progress
import MyIPNG.Ip4.Routing
import MyIPNG.Arp.Survival
import MyIPNG.Shm.Locking
import MyIPNG.Shm.Blocking
import MyIPNG.Shm.Corrupt
import MyIPNG.Utils.Receiving
import MyIPNG.Http.TlsReceive
import MyIPNG.Vnc.Update
import MyIPNG.Base.Grid
import MyIPNG.Vnc.Hextile
import MyIPNG.Vnc.Rectangle
import MyIPNG.Vnc.Bounds
import MyIPNG.Vnc.Server
import MyIPNG.Vnc.Framing
import MyIPNG.Vnc.Requests
import MyIPNG.Vnc.InStep
import MyIPNG.Gopher.Server
import MyIPNG.Gopher.BasePath
import MyIPNG.Gopher.Segments
import MyIPNG.Utils.Splitting
import MyIPNG.Ntp.Server
import MyIPNG.Icmp.Errors
import MyIPNG.Http.Server
import MyIPNG.Http.DocumentRoot
import MyIPNG.L7.Meta
import MyIPNG.L7.Sessions
import MyIPNG.Base.Link
import MyIPNG.Tcp.Connection
import MyIPNG.Base.Projection
import MyIPNG.Utils.Mappings
import MyIPNG.Tap.Server
import MyIPNG.Ip4.Traffic
import MyIPNG.Ip4.Sent
import MyIPNG.Stack.Crossing
import MyIPNG.L7.Stream
import MyIPNG.Tcp.Audience
import MyIPNG.Base.Potential
import MyIPNG.Tcp.Clocking
import MyIPNG.Tcp.Outstanding
import MyIPNG.Base.Reachability
import MyIPNG.Tcp.Completion
import MyIPNG.Shm.Order
import MyIPNG.L7.Sending
import MyIPNG.Stack.Applications
import MyIPNG.Base.Lines
import MyIPNG.Http.Response
import MyIPNG.Tcp.Opening
import MyIPNG.Base.Network
import MyIPNG.Arp.Lan
import MyIPNG.Shm.Programs
import MyIPNG.Stack.Configuration
import MyIPNG.Vnc.Drawing
