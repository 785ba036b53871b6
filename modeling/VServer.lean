import VServer.Http.Framing
import VServer.Net.TimerLoop
import VServer.Net.CloseOnce
import VServer.Net.Sockets
import VServer.Net.OutputStream
import VServer.Net.Notifications
import VServer.Net.TimerRuns
import VServer.Net.TimerCancel
import VServer.Net.TimerHandler
import VServer.Net.TimerClock
import VServer.Http.RoundTrip
import VServer.Http.Acceptance
import VServer.Net.Registration
import VServer.Net.Ownership
import VServer.Net.Places
import VServer.Net.WriteInterest
import VServer.Net.Shutdown
import VServer.Net.Removal
import VServer.Lib.Simulation
import VServer.Net.IdleTimeout
import VServer.Net.ChannelRuns
import VServer.Net.LoopCounts
import VServer.Net.LoopThreads
import VServer.Net.PendingFunctors
import VServer.Net.EventLoopThread
import VServer.Net.IdleRenewal
import VServer.Log.Stop
import VServer.Pool.Waiters
import VServer.Pool.Bound
import VServer.Log.Formatter
import VServer.Net.RoundRobin
import VServer.Log.Patterns
import VServer.Http.Decoding
import VServer.Http.Agreement
import VServer.Http.Initialised
import VServer.Net.TimerExpiry
import VServer.Net.ReadDeadline
import VServer.Http.Cuts
import VServer.Http.Resuming
import VServer.Net.BufferGrowth
import VServer.Net.TimerRepeat
import VServer.Log.Escapes
import VServer.Http.Session
import VServer.Pool.Stop
import VServer.Sync.Latch
import VServer.Sync.Thread
import VServer.Lib.Groups
import VServer.Lib.Line
import VServer.Lib.Stack
import VServer.Log.Appenders
import VServer.Log.Delivery
import VServer.Log.ReadBack
import VServer.Net.Address
import VServer.Net.ConnectionMap
import VServer.Net.EventList
import VServer.Net.Progress
import VServer.Net.Transfer
import VServer.Http.Conversation
import VServer.Lib.NextFit
import VServer.Log.Memory
import VServer.Lib.Endless
import VServer.Net.LoopView
import VServer.Net.Served
