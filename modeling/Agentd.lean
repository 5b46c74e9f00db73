import Agentd.ServerList
import Agentd.Schema
import Agentd.Dispatcher.InFlight
import Agentd.Dispatcher.Update
import Agentd.Dispatcher.History
import Agentd.Dispatcher.CrashWindow
import Agentd.Dispatcher.Isolation
import Agentd.Dispatcher.Opaque
import Agentd.Dispatcher.Resolution
import Agentd.Dispatcher.Accounting
import Agentd.Dispatcher.HandlerInput
import Agentd.Daemon.Convergence
import Agentd.Daemon.SerialOrder
import Agentd.Daemon.Window
import Agentd.Daemon.Restart
import Agentd.Daemon.Shutdown
import Agentd.Daemon.ControlPath
import Agentd.Daemon.PartialUpdate
import Agentd.Daemon.OverPull
import Agentd.Daemon.Orphans
import Agentd.Daemon.TaskSet
import Agentd.Daemon.Framing
import Agentd.Registry.CrashSafety
import Agentd.Registry.NameLimit
import Agentd.Registry.Names
import Agentd.Registry.Reload
import Agentd.Retention
import Agentd.Daemon.Recovery
import Agentd.Dispatcher.Refinement
import Agentd.Wire.Rpc
