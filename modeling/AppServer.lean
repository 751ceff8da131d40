import AppServer.Lib.Transition
import AppServer.Lib.Execution
import AppServer.Lib.Ranking
import AppServer.Lib.StdSet
import AppServer.Lib.Lanes
import AppServer.Lib.Outbox
import AppServer.Lib.Decimal
import AppServer.CpuTime
import AppServer.Logger.Message
import AppServer.Logger.Print
import AppServer.Logger.Model
import AppServer.Logger.Step
import AppServer.Logger.Discipline
import AppServer.Logger.Provenance
import AppServer.Logger.Roles
import AppServer.Logger.Custody
import AppServer.Logger.Conservation
import AppServer.Logger.Fidelity
import AppServer.Logger.Sweep
import AppServer.Logger.Drain
import AppServer.Logger.Merge
import AppServer.Logger.Selection
import AppServer.Logger.SelfLock
import AppServer.Logger.Interrupt
import AppServer.WebSocket.Model
import AppServer.WebSocket.Step
import AppServer.WebSocket.Activation
import AppServer.WebSocket.Startup
import AppServer.WebSocket.WriteBuffer
import AppServer.WebSocket.Settled
import AppServer.WebSocket.Reentry
import AppServer.WebSocket.Closing
import AppServer.WebSocket.Echo
import AppServer.WebSocket.Notes
import AppServer.WebSocket.Termination
import AppServer.Webserver.Model
import AppServer.Webserver.Step
import AppServer.Webserver.Handles
import AppServer.Webserver.Listener
import AppServer.Lib.CircularBuffer
import AppServer.Lib.CircularList
import AppServer.Lib.PowerOfTwo
import AppServer.Queue.Block
import AppServer.Queue.Construct
import AppServer.Queue.Consumer
import AppServer.Queue.Empty
import AppServer.Queue.Capacity
import AppServer.Queue.Contents
import AppServer.Blocking.Atomic
import AppServer.Blocking.Progress
import AppServer.Blocking.TryDequeue
import AppServer.Logging.Delivery
import AppServer.Logging.Progress
import AppServer.Lib.Coarsening
import AppServer.Logging.Draining
