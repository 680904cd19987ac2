import NettyTcpWeb.Library.Text
import NettyTcpWeb.Library.Utf8
import NettyTcpWeb.Library.Protobuf
import NettyTcpWeb.Library.Wire
import NettyTcpWeb.Library.Raw
import NettyTcpWeb.Library.Jspb
import NettyTcpWeb.Library.HashMap
import NettyTcpWeb.Library.StateExcept
import NettyTcpWeb.Library.Runs
import NettyTcpWeb.Library.Refinement
import NettyTcpWeb.Message.Parsing
import NettyTcpWeb.Message.Frame
import NettyTcpWeb.Message.Proxy
import NettyTcpWeb.Message.Grammar
import NettyTcpWeb.Message.Length
import NettyTcpWeb.Message.Template
import NettyTcpWeb.Coder.Stream
import NettyTcpWeb.Coder.Injection
import NettyTcpWeb.Server.State
import NettyTcpWeb.Server.Connertor
import NettyTcpWeb.Server.Sessions
import NettyTcpWeb.Server.Login
import NettyTcpWeb.Server.Close
import NettyTcpWeb.Server.Delivery
import NettyTcpWeb.Server.Effect
import NettyTcpWeb.Server.Registry
import NettyTcpWeb.Server.Client
import NettyTcpWeb.Server.Idle
import NettyTcpWeb.Server.Routing
import NettyTcpWeb.Server.Expiry
import NettyTcpWeb.Server.Heartbeat
import NettyTcpWeb.Server.Broadcast
import NettyTcpWeb.Server.Notices
import NettyTcpWeb.Server.Pages
import NettyTcpWeb.Server.CloseAll
import NettyTcpWeb.Server.Operations
import NettyTcpWeb.Server.Offline
import NettyTcpWeb.Server.Accounts
import NettyTcpWeb.Server.Ghosts
import NettyTcpWeb.Server.Links
import NettyTcpWeb.Server.Group
import NettyTcpWeb.Server.Calls
import NettyTcpWeb.Server.Concurrent
import NettyTcpWeb.Server.Closings
import NettyTcpWeb.Server.Closers
import NettyTcpWeb.Server.Traffic
import NettyTcpWeb.Server.Races
import NettyTcpWeb.Wire.Message
import NettyTcpWeb.Wire.Page
import NettyTcpWeb.Wire.Contents
import NettyTcpWeb.Wire.Network
import NettyTcpWeb.Wire.Relay
