import ProxyServer.Accept
import ProxyServer.Admin
import ProxyServer.Auth.Access
import ProxyServer.Auth.Bounds
import ProxyServer.Auth.Buffer
import ProxyServer.CString
import ProxyServer.Cache.CacheControl
import ProxyServer.Cache.Capacity
import ProxyServer.Cache.DiskTier
import ProxyServer.Cache.Freshness
import ProxyServer.Cache.Latest
import ProxyServer.Cache.Lru
import ProxyServer.Cache.Refusal
import ProxyServer.Cache.Threads
import ProxyServer.Cache.Victim
import ProxyServer.Certificates
import ProxyServer.Config.Comments
import ProxyServer.Config.HotReload
import ProxyServer.Config.Line
import ProxyServer.Config.Numbers
import ProxyServer.Config.Precedence
import ProxyServer.Config.Startup
import ProxyServer.Decimal
import ProxyServer.Filter.Agreement
import ProxyServer.Filter.ContentType
import ProxyServer.Filter.Domains
import ProxyServer.Filter.Reload
import ProxyServer.Http2.ActiveStreams
import ProxyServer.Http2.Cleanup
import ProxyServer.Http2.Connection
import ProxyServer.Http2.Effects
import ProxyServer.Http2.Lifetime
import ProxyServer.Http2.Loop
import ProxyServer.Http2.PseudoHeaders
import ProxyServer.Http2.Resources
import ProxyServer.Http2.Response
import ProxyServer.Http2.SendPending
import ProxyServer.Http2.Status
import ProxyServer.Http2.Table
import ProxyServer.Http2.Upload
import ProxyServer.Http3.Worker
import ProxyServer.Lib.Base64
import ProxyServer.Lib.Block
import ProxyServer.Lib.Evict
import ProxyServer.Lib.Growable
import ProxyServer.Lib.History
import ProxyServer.Lib.Interleave
import ProxyServer.Lib.Json
import ProxyServer.Lib.Lines
import ProxyServer.Lib.Mask
import ProxyServer.Lib.Override
import ProxyServer.Lib.Path
import ProxyServer.Lib.Prefix
import ProxyServer.Lib.Run
import ProxyServer.Lib.Segments
import ProxyServer.Lib.Slots
import ProxyServer.Logger.AccessLog
import ProxyServer.Logger.Messages
import ProxyServer.Logger.Records
import ProxyServer.Logger.Retention
import ProxyServer.Logger.Rotation
import ProxyServer.ProxyParse.Determined
import ProxyServer.ProxyParse.Extent
import ProxyServer.ProxyParse.HeaderTable
import ProxyServer.ProxyParse.Parse
import ProxyServer.ProxyParse.Reuse
import ProxyServer.ProxyParse.RoundTrip
import ProxyServer.Request.Buffer
import ProxyServer.Request.Forbidden
import ProxyServer.Request.Framing
import ProxyServer.Request.Gauges
import ProxyServer.Request.HopByHop
import ProxyServer.Request.HostField
import ProxyServer.Request.Mediation
import ProxyServer.Request.Provenance
import ProxyServer.Request.Resources
import ProxyServer.Request.Replay
import ProxyServer.Request.Responses
import ProxyServer.RuleFiles
import ProxyServer.Tunnel
import ProxyServer.Upstream
