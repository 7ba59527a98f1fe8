import TptAsync.Timer.NextDeadline
import TptAsync.Timer.DriverProperties
import TptAsync.Timer.Oversleeping
import TptAsync.Http.Buffering
import TptAsync.Http.ServerProperties
import TptAsync.Http.ResponseProperties
import TptAsync.Http.WholeBodies
import TptAsync.Http.Grammar
import TptAsync.Http.ClientProperties
import TptAsync.Http.Malformed
import TptAsync.Http.Dropped
import TptAsync.Http.Draining
import TptAsync.Http.Leftovers
import TptAsync.Http.PoolProperties
import TptAsync.Http.SentHeads
import TptAsync.Http.StatusLine
import TptAsync.Http.Persistence
import TptAsync.Http.Interim
import TptAsync.Http.RenderedFraming
import TptAsync.Http.Numerals
import TptAsync.Http.HeadLimit
import TptAsync.Ws.Keepalive
import TptAsync.Ws.Rsv1
import TptAsync.Ws.Segmentation
import TptAsync.Ws.Closing
import TptAsync.Ws.Closed
import TptAsync.Ws.DeflateProperties
import TptAsync.Tls.StreamProperties
import TptAsync.Tls.Flushing
import TptAsync.Tls.Reading
import TptAsync.Core.TaskProperties
import TptAsync.Core.Wakeups
import TptAsync.Executor.SchedulerProperties
import TptAsync.Executor.ParkingProperties
import TptAsync.Executor.Nested
import TptAsync.Ws.ClosingHandshake
import TptAsync.Ws.Cancellation
import TptAsync.Ws.HandshakeProperties
import TptAsync.Lib.Reference
import TptAsync.Http.Redirects
import TptAsync.Http.Hops
import TptAsync.Executor.Cleanup
import TptAsync.Executor.Starvation
import TptAsync.Timer.Grid
import TptAsync.Ws.Canonical
import TptAsync.Http.Ranges
import TptAsync.Ws.Compress
import TptAsync.Ws.Extensions
import TptAsync.Ws.Memory
import TptAsync.Ws.Violations
import TptAsync.Timer.TickCounts
import TptAsync.Timer.Deadlines
import TptAsync.Timer.Clock
import TptAsync.Timer.WheelIntegrity
import TptAsync.Ws.Base64
import TptAsync.Io.Transfers
import TptAsync.Http.Http2Properties
import TptAsync.Io.FakeIoProperties
import TptAsync.Core.WakerWithProperties
import TptAsync.Executor.RoutinesProperties
import TptAsync.Timer.RetryProperties
import TptAsync.Http.DialogueProperties
import TptAsync.Http.RouterProperties
