import MiqroForge.Library.PyText
import MiqroForge.Messages.TurnRunner
import MiqroForge.Kun.History
import MiqroForge.Messages.TurnPairing
import MiqroForge.Guard.Classify
import MiqroForge.Guard.Isolation
import MiqroForge.Agents.Control
import MiqroForge.Library.Worklist
import MiqroForge.Agents.Tree
import MiqroForge.Library.CallRepair
import MiqroForge.Library.Measures
import MiqroForge.Library.Occurrences
import MiqroForge.Library.StampedLog
import MiqroForge.Library.Lifecycle
import MiqroForge.Sessions.KeyForms
import MiqroForge.Session.Conservation
import MiqroForge.Library.Calls
import MiqroForge.Session.Abort
import MiqroForge.Session.UserTurn
import MiqroForge.Session.TurnEnds
import MiqroForge.Library.Json
import MiqroForge.Library.JsonRoundTrip
import MiqroForge.Library.JsonScan
import MiqroForge.Library.JsonLines
import MiqroForge.Kun.SessionStore
import MiqroForge.Ledger.Thread
import MiqroForge.Ledger.Rollback
import MiqroForge.Guard.Tokens
import MiqroForge.Guard.Payload
import MiqroForge.Ledger.Export
import MiqroForge.Ledger.PayloadLimit
import MiqroForge.Ledger.RoundTrip
import MiqroForge.Store.Connection
import MiqroForge.Store.Safety
import MiqroForge.Store.Recovery
import MiqroForge.Kun.Loop
import MiqroForge.Kun.Transcript
import MiqroForge.Kun.StormGuard
import MiqroForge.Kun.TurnStatus
import MiqroForge.Kun.EventBus
import MiqroForge.Kun.InputGate
import MiqroForge.Kun.Compactor
import MiqroForge.Guard.Evaluate
import MiqroForge.Library.ShellWords
import MiqroForge.Guard.Splitting
import MiqroForge.Guard.Tokenizing
import MiqroForge.Guard.DeleteSound
import MiqroForge.Agents.Fleet
import MiqroForge.Agents.Jobs
import MiqroForge.Library.FileTree
import MiqroForge.Sessions.Directory
import MiqroForge.Library.Table
import MiqroForge.Replay.Timeline
import MiqroForge.Replay.ToolCalls
import MiqroForge.Replay.Exits
import MiqroForge.Replay.Conserved
import MiqroForge.Cron.JobStore
import MiqroForge.Guard.Grants
import MiqroForge.Guard.LexNorm
import MiqroForge.Library.GetOpt
import MiqroForge.Guard.Destinations
import MiqroForge.Messages.CompressPairing
import MiqroForge.Messages.Compaction
import MiqroForge.Library.ShellLines
import MiqroForge.Guard.Lines
import MiqroForge.Guard.Privilege
import MiqroForge.Guard.RedirectSound
import MiqroForge.Sessions.Manager
import MiqroForge.Sessions.Rows
import MiqroForge.Sessions.Opening
import MiqroForge.Sessions.Mutations
import MiqroForge.Sessions.Reloading
import MiqroForge.Sessions.Persistence
import MiqroForge.Sessions.Ownership
import MiqroForge.Sessions.Instances
import MiqroForge.Cron.Occurrences
import MiqroForge.Library.Mealy
import MiqroForge.Turns.Adapter
import MiqroForge.Turns.Lifecycle
import MiqroForge.Execution.Permissions
import MiqroForge.Execution.Arguments
import MiqroForge.Execution.Denials
import MiqroForge.Execution.Profiles
import MiqroForge.Providers.Fallback
import MiqroForge.Providers.Anthropic
import MiqroForge.Providers.Conversion
import MiqroForge.Providers.OpenAI
import MiqroForge.Providers.Streaming
import MiqroForge.Library.Retry
import MiqroForge.Providers.Resilience
import MiqroForge.Sessions.DesktopKey
import MiqroForge.Workbench.Draining
import MiqroForge.Workbench.Custody
import MiqroForge.Patch.Apply
import MiqroForge.Patch.Diff
import MiqroForge.Patch.Reading
import MiqroForge.Patch.Applied
import MiqroForge.Patch.InOrder
import MiqroForge.Approvals.Answers
import MiqroForge.Approvals.Outcomes
import MiqroForge.Configuration.Updates
import MiqroForge.Sandboxes.Custody
import MiqroForge.Sandboxes.Registered
import MiqroForge.Confirmation.Cards
import MiqroForge.Chat.Drains
import MiqroForge.Chat.Outcomes
import MiqroForge.Turns.Sharing
import MiqroForge.Library.PosixPaths
import MiqroForge.Workspace.Location
import MiqroForge.Library.BashQuoting
import MiqroForge.Library.BashWords
import MiqroForge.Workspace.SearchScript
import MiqroForge.Library.LinkedFiles
import MiqroForge.Workspace.Containment
import MiqroForge.Library.NodePaths
import MiqroForge.Cleanup.Plan
import MiqroForge.Cleanup.Run
import MiqroForge.Cleanup.Guarded
import MiqroForge.Cleanup.Shown
import MiqroForge.Registry.Clients
import MiqroForge.Registry.Runtimes
import MiqroForge.Registry.Consistent
import MiqroForge.Registry.Accounts
import MiqroForge.Registry.Addressing
import MiqroForge.Execution.SystemInstall
import MiqroForge.Library.RealPaths
import MiqroForge.Workspace.SessionFiles
import MiqroForge.Workspace.FileHandlers
import MiqroForge.Memory.Lessons
import MiqroForge.Memory.Unlearned
import MiqroForge.Billing.Charges
import MiqroForge.Billing.Once
import MiqroForge.Qraft.Service
import MiqroForge.Qraft.Captured
import MiqroForge.Qraft.Sessions
import MiqroForge.Qraft.StoredLogin
import MiqroForge.Panel.WindowSync
import MiqroForge.Panel.InStep
import MiqroForge.Messages.Pruning
import MiqroForge.Guard.Agreement
import MiqroForge.Kun.CompactPairs
import MiqroForge.Kun.InputOrder
import MiqroForge.Messages.TailCut
import MiqroForge.Ledger.Atomic
import MiqroForge.Ledger.HistoryOrder
import MiqroForge.Library.TextFiles
import MiqroForge.Workspace.Snapshots
import MiqroForge.Workspace.ToolPaths
import MiqroForge.Workspace.WriteGrants
import MiqroForge.Workspace.PosixHost
import MiqroForge.Workspace.EditExact
import MiqroForge.Workspace.PatchFiles
import MiqroForge.Workspace.FileTools
import MiqroForge.Kun.Healing
import MiqroForge.Kun.Hygiene
import MiqroForge.Configuration.HotApply
import MiqroForge.Desktop.CrashRecovery
