import Desmos.Rt.Ring.Queue
import Desmos.Rt.Timer.Refinement
import Desmos.Proto.Wire.Bijection
import Desmos.Proto.Fragment.Invariant
import Desmos.Proto.Fragment.Mixing
import Desmos.Proto.Crypto.X25519.Refinement
import Desmos.Core.Session.Forgery
import Desmos.Core.Session.Nonce
import Desmos.Core.Session.Rekey
import Desmos.Core.Bonding.RoundRobin
import Desmos.Core.Bonding.Draws
import Desmos.Core.Bonding.LinkState.Fresh
import Desmos.Core.Bonding.Race
import Desmos.Core.Bonding.Probe
import Desmos.Core.Bonding.Reorder.Timeout
import Desmos.Core.Pipeline.Order
import Desmos.Proto.Handshake.Tamper
import Desmos.Core.Server.RateLimit.Idle
import Desmos.Core.Server.RateLimit.Retry
import Desmos.Core.Server.Concurrent
import Desmos.Core.Server.Nat
import Desmos.Core.Daemon.Handshake.Junk
import Desmos.Core.Daemon.InboundPaths
import Desmos.Core.Daemon.ClientLoop
import Desmos.Core.Daemon.Orphans
import Desmos.Core.Net.ResolverHook
import Desmos.Core.Net.Pmtud
import Desmos.Core.Net.Stun.Query
import Desmos.Core.Net.Dns.Response
import Desmos.Core.Net.Watcher
import Desmos.Core.P2p.Relay.Origin
import Desmos.Core.P2p.HolePunch
import Desmos.Core.Broadcast.Stream
import Desmos.Core.Config.Schema.Faithful
import Desmos.Core.Config.StartUp
import Desmos.Core.Auth.Asn1.Calls
import Desmos.Core.Auth.X509.Header
import Desmos.Core.Auth.X509.TimeArith
import Desmos.Core.Auth.Mtls
import Desmos.Core.Auth.Totp.Window
import Desmos.Core.Daemon.Reflection
import Desmos.Http.BasicAuth.Codec
import Desmos.Http.Chunked
import Desmos.Http.Server.Connection
import Desmos.Http.WebSocket.Frame
import Desmos.Webui.Handlers.Bonding
import Desmos.Webui.Handlers.ConfigLock
import Desmos.Webui.Routes
import Desmos.Core.Log
