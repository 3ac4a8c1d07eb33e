import NyaSniProxy.Library.Search
import NyaSniProxy.Library.Text
import NyaSniProxy.Library.Base64
import NyaSniProxy.Library.Net
import NyaSniProxy.Library.Interaction
import NyaSniProxy.Error
import NyaSniProxy.Target
import NyaSniProxy.Proxy.Config
import NyaSniProxy.Config
import NyaSniProxy.Router
import NyaSniProxy.Router.Build
import NyaSniProxy.Router.Lookup
import NyaSniProxy.Router.Order
import NyaSniProxy.Http
import NyaSniProxy.Tls
import NyaSniProxy.Library.Frame
import NyaSniProxy.Tls.Hello
import NyaSniProxy.Hosts
import NyaSniProxy.Hosts.Block
import NyaSniProxy.Connection
import NyaSniProxy.Library.Percent
import NyaSniProxy.Proxy.Url
import NyaSniProxy.Wire
import NyaSniProxy.Proxy.Socks5
import NyaSniProxy.Http.Head
import NyaSniProxy.Library.Lines
import NyaSniProxy.Tls.Reading
import NyaSniProxy.Connection.Request
import NyaSniProxy.Connection.Flow
import NyaSniProxy.Connection.Opening
import NyaSniProxy.Connection.Transparency
import NyaSniProxy.Connection.Phases
import NyaSniProxy.Connection.Backpressure
import NyaSniProxy.Connection.Run
import NyaSniProxy.Hosts.Files
import NyaSniProxy.Hosts.Managed
import NyaSniProxy.Reload
import NyaSniProxy.Router.Spelling
import NyaSniProxy.Reload.Once
import NyaSniProxy.Reload.Safety
import NyaSniProxy.Library.Pool
import NyaSniProxy.Reload.InFlight
import NyaSniProxy.Target.Grammar
import NyaSniProxy.Http.Fields
import NyaSniProxy.Connection.Naming
import NyaSniProxy.Hosts.Resync
import NyaSniProxy.Hosts.Entry
import NyaSniProxy.Library.Interference
import NyaSniProxy.Reload.WatchFile
import NyaSniProxy.Reload.Current
import NyaSniProxy.Connection.Idle
import NyaSniProxy.Connection.Buffered
import NyaSniProxy.Hosts.Failures
import NyaSniProxy.Watchdog
import NyaSniProxy.Hosts.Endings
import NyaSniProxy.Hosts.Meaning
import NyaSniProxy.Reload.Slots
import NyaSniProxy.Segmentation
import NyaSniProxy.Segmentation.Hello
import NyaSniProxy.Library.Code
import NyaSniProxy.Router.Fingerprint
import NyaSniProxy.Library.Slices
import NyaSniProxy.Library.Tasks
import NyaSniProxy.Tls.Indexed
import NyaSniProxy.Connection.Session
import NyaSniProxy.Server
import NyaSniProxy.Server.Permits
import NyaSniProxy.Server.Reloading
import NyaSniProxy.Server.Sessions
import NyaSniProxy.Reload.Fetch
import NyaSniProxy.Library.History
import NyaSniProxy.Reload.Startup
import NyaSniProxy.Router.Plain
import NyaSniProxy.Hosts.Permissions
import NyaSniProxy.Library.Interval
import NyaSniProxy.Server.Heartbeat
import NyaSniProxy.Reload.Polling
import NyaSniProxy.Connection.Serving
import NyaSniProxy.Library.Deadline
import NyaSniProxy.Connection.Setup
import NyaSniProxy.Connection.Secrets
import NyaSniProxy.Reload.Installed
import NyaSniProxy.Library.Termination
import NyaSniProxy.Connection.Finishing
import NyaSniProxy.Library.Counting
import NyaSniProxy.Reload.Freshness
import NyaSniProxy.Library.Records
