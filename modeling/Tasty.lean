import Tasty.Core.Fencing
import Tasty.Core.Pins
import Tasty.Core.Panics
import Tasty.Core.Relocation
import Tasty.Agent.Resolution
import Tasty.Agent.Activation
import Tasty.Terminal.Delivery
import Tasty.Terminal.Viewport
import Tasty.Terminal.LinkText
import Tasty.Terminal.AnsiText
import Tasty.Ipc.Executions
import Tasty.Ipc.LossNotice
import Tasty.Journal.Integrity
import Tasty.Journal.Numbers
import Tasty.Remote.MirrorOutbox
import Tasty.Html.Fence
import Tasty.Html.Address
import Tasty.AgentStream.Restart
import Tasty.AgentStream.Frames
import Tasty.AgentStream.Resume
import Tasty.AgentStream.TurnRuns
import Tasty.Remote.HttpLedger
import Tasty.Core.DisplayOrder
import Tasty.Core.Identity
import Tasty.Agent.LeasePool
import Tasty.Agent.LeaseKeys
import Tasty.Agent.Sweep
import Tasty.Agent.Cycles
import Tasty.Agent.DagGroups
import Tasty.Agent.Finality
import Tasty.Agent.Confluence
import Tasty.Timer.TimerHub
import Tasty.Agent.RateLimit
import Tasty.Agent.Merging
import Tasty.Agent.DeclarationRoundTrip
import Tasty.Agent.NormalForm
import Tasty.Agent.ParamsMapping
import Tasty.Terminal.OutputReads
import Tasty.Terminal.ScrollbackQueue
import Tasty.Ipc.MeshFrames
import Tasty.Memory.Quota
import Tasty.Memory.SnapshotRestores
import Tasty.Ipc.SessionAuthority
import Tasty.Layout.PaneTree
import Tasty.Keys.Bindings
import Tasty.Remote.ResizeRuns
import Tasty.Layout.Focus
import Tasty.Approval.Runs
import Tasty.Dag.Clearance
import Tasty.Dag.CycleFlag
import Tasty.Runtime.Loading
