import NodeGroups.Main
import NodeGroups.Fleet.Script
import NodeGroups.RefreshLoop
import NodeGroups.Proofs.Ending
import NodeGroups.Proofs.Manager.Ending
import NodeGroups.Proofs.Table
import NodeGroups.Proofs.Manager.Lookup
import NodeGroups.Proofs.Manager.Comeback
import NodeGroups.Proofs.Group.Ending
import NodeGroups.Proofs.Group.Registered
import NodeGroups.Proofs.Fleet.World
import NodeGroups.Proofs.Group.LiveUnits
import NodeGroups.Proofs.Group.Retries
import NodeGroups.Proofs.Manager.Listed
import NodeGroups.Proofs.Fleet.Clearing
import NodeGroups.Proofs.Manager.Teardown
import NodeGroups.Proofs.Group.Removals
import NodeGroups.Proofs.Provider.Ending
import NodeGroups.Proofs.Provider.Removals
import NodeGroups.Proofs.Manager.Polling
import NodeGroups.Proofs.FailFast
import NodeGroups.Proofs.Group.Failures
import NodeGroups.Job
import NodeGroups.Proofs.Handle.BreakingOff
import NodeGroups.Pool
import NodeGroups.Proofs.Pool.Callers
import NodeGroups.Proofs.Pool.Progress
import NodeGroups.Proofs.Pool.Schedules
import NodeGroups.Proofs.Group.Minimum
import NodeGroups.Proofs.Manager.Names
import NodeGroups.Proofs.Manager.Lifecycle
import NodeGroups.Proofs.Provider.Refreshing
import NodeGroups.Proofs.Provider.Apart
import NodeGroups.Proofs.Calls
import NodeGroups.Proofs.Group.Deletions
import NodeGroups.Proofs.Api.Answers
import NodeGroups.Proofs.Agreement
import NodeGroups.Proofs.Manager.Life
import NodeGroups.Proofs.Juju.Recording
import NodeGroups.Proofs.Juju.Scripted
import NodeGroups.Proofs.Config.Specs
import NodeGroups.Proofs.Daemon.Status
import NodeGroups.Proofs.Manager.Outcome
import NodeGroups.Proofs.Config.Acceptance
import NodeGroups.Proofs.Group.Rejections
import NodeGroups.Proofs.RefreshLoop.Moves
import NodeGroups.Proofs.RefreshLoop.Shutdown
import NodeGroups.Proofs.RefreshLoop.Rounds
import NodeGroups.Proofs.Json.Strings
import NodeGroups.Proofs.Json.Tokens
import NodeGroups.Proofs.Json.Texts
import NodeGroups.Proofs.Json.Records
import NodeGroups.Proofs.Fleet.Padding
import NodeGroups.Proofs.Fleet.Report
import NodeGroups.Proofs.Manager.Growth
import NodeGroups.Proofs.Group.Prefixes
import NodeGroups.Proofs.Provider.Views
import NodeGroups.Proofs.Group.Words
import NodeGroups.Proofs.Text.Written
import NodeGroups.Proofs.Spec.Grammar
import NodeGroups.Proofs.Config.Duplicates
import NodeGroups.Proofs.Config.Durations
import NodeGroups.Proofs.Fleet.Machines
import NodeGroups.Proofs.Manager.Retired
import NodeGroups.Proofs.Api.Addresses
import NodeGroups.Proofs.Json.Told
