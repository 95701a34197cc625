import SagaEngine.Config.Document
import SagaEngine.Config.Fields
import SagaEngine.Config.Resolution
import SagaEngine.Config.Settings
import SagaEngine.Config.Validation
import SagaEngine.Config.Yaml
import SagaEngine.Daemon.Application
import SagaEngine.Daemon.CommandLine
import SagaEngine.Dictionary
import SagaEngine.Dispatch.Queue
import SagaEngine.Dispatch.Worker
import SagaEngine.Engine.Orchestrator
import SagaEngine.Engine.Program
import SagaEngine.Engine.Request
import SagaEngine.Engine.Transition
import SagaEngine.Json.Lookup
import SagaEngine.Json.Message
import SagaEngine.Json.Reader
import SagaEngine.Json.Value
import SagaEngine.Json.Writer
import SagaEngine.Lease.Holdings
import SagaEngine.Lease.Table
import SagaEngine.Main
import SagaEngine.Numbered
import SagaEngine.Order.Clients
import SagaEngine.Order.Collaborator
import SagaEngine.Order.CreateOrder
import SagaEngine.Order.Draft
import SagaEngine.Proofs.Advance
import SagaEngine.Proofs.CancelRace
import SagaEngine.Proofs.Cluster
import SagaEngine.Proofs.Compensation
import SagaEngine.Proofs.Completion
import SagaEngine.Proofs.Conduct
import SagaEngine.Proofs.ContextBlob
import SagaEngine.Proofs.Contract
import SagaEngine.Proofs.Course
import SagaEngine.Proofs.CrashRecovery
import SagaEngine.Proofs.Decision
import SagaEngine.Proofs.Determinism
import SagaEngine.Proofs.DurableCancel
import SagaEngine.Proofs.Duty
import SagaEngine.Proofs.Endings
import SagaEngine.Proofs.Exclusion
import SagaEngine.Proofs.Fleet
import SagaEngine.Proofs.Interference
import SagaEngine.Proofs.Journal
import SagaEngine.Proofs.Life
import SagaEngine.Proofs.Lineage
import SagaEngine.Proofs.Operations
import SagaEngine.Proofs.OrderAccount
import SagaEngine.Proofs.OrderExchange
import SagaEngine.Proofs.OrderUndo
import SagaEngine.Proofs.Persistence
import SagaEngine.Proofs.Position
import SagaEngine.Proofs.Race
import SagaEngine.Proofs.RecordInvariant
import SagaEngine.Proofs.Reference
import SagaEngine.Proofs.RejectedFlag
import SagaEngine.Proofs.Reports
import SagaEngine.Proofs.Rule
import SagaEngine.Proofs.Serialisation
import SagaEngine.Proofs.Solo
import SagaEngine.Recovery.Options
import SagaEngine.Recovery.Sweep
import SagaEngine.Remote.Breaker
import SagaEngine.Remote.Call
import SagaEngine.Saga.Context
import SagaEngine.Saga.Definition
import SagaEngine.Saga.Execution
import SagaEngine.Saga.FailureKind
import SagaEngine.Saga.IdempotencyKey
import SagaEngine.Saga.Identifier
import SagaEngine.Saga.Members
import SagaEngine.Saga.Registry
import SagaEngine.Saga.Retry
import SagaEngine.Saga.Status
import SagaEngine.Saga.Step
import SagaEngine.Scenario.Play
import SagaEngine.Scenario.Reading
import SagaEngine.Scenario.Script
import SagaEngine.Scenario.Setup
import SagaEngine.Scenario.World
import SagaEngine.Store.Backend
import SagaEngine.Store.BucketOrder
import SagaEngine.Store.Commands
import SagaEngine.Store.Console
import SagaEngine.Store.Database
import SagaEngine.Store.DatabaseAddress
import SagaEngine.Store.ExecutionTable
import SagaEngine.Store.FileTree
import SagaEngine.Store.Interference
import SagaEngine.Store.Memory
import SagaEngine.Store.Result
import SagaEngine.Store.TableRow
import SagaEngine.Tally
import SagaEngine.Telemetry.Alert
import SagaEngine.Telemetry.Log
import SagaEngine.Telemetry.Logging
import SagaEngine.Telemetry.Recorder
import SagaEngine.Telemetry.Tracing
import SagaEngine.Text.BinaryFraction
import SagaEngine.Text.LooseNumeral
import SagaEngine.Text.Numeral
import SagaEngine.Text.PercentCoded
import SagaEngine.Text.ZeroEnded
import SagaEngine.Time.Duration
import SagaEngine.Word
import SagaEngine.Proofs.CollectedWrites
import SagaEngine.Proofs.CommitOrder
import SagaEngine.Proofs.TableStore
import SagaEngine.Proofs.DatabaseRows
import SagaEngine.Proofs.BackendParity
import SagaEngine.Proofs.LeaseExclusion
import SagaEngine.Proofs.SingleFlight
import SagaEngine.Proofs.RecoverySweep
import SagaEngine.Proofs.Pace
import SagaEngine.Proofs.Workshop
import SagaEngine.Proofs.Requeues
import SagaEngine.Proofs.Schedules
import SagaEngine.Proofs.LeasedJournal
import SagaEngine.Proofs.CircuitRun
import SagaEngine.Proofs.TrialAdmission
import SagaEngine.Proofs.CircuitHistory
import SagaEngine.Proofs.LateResults
import SagaEngine.Proofs.Durations
import SagaEngine.Proofs.RecoveryWindow
import SagaEngine.Proofs.CallSettlement
import SagaEngine.Proofs.RateTrigger
import SagaEngine.Proofs.TransactionStages
import SagaEngine.Proofs.Custody
import SagaEngine.Proofs.FailedOperations
import SagaEngine.Proofs.MovesLeft
import SagaEngine.Proofs.SoleWriter
import SagaEngine.Proofs.LoneAdvance
import SagaEngine.Proofs.DriveTermination
import SagaEngine.Proofs.QueueOrder
import SagaEngine.Proofs.Deeds
import SagaEngine.Proofs.UnreadableContext
import SagaEngine.Proofs.Backoff
import SagaEngine.Proofs.WrittenValues
import SagaEngine.Proofs.DraftRoundTrip
import SagaEngine.Proofs.CallKeys
import SagaEngine.Proofs.LogFields
import SagaEngine.Proofs.DurationRange
import SagaEngine.Proofs.SharedStore
import SagaEngine.Proofs.SharedRows
import SagaEngine.Proofs.SharedTable
import SagaEngine.Proofs.FileStages
import SagaEngine.Proofs.CancelRounds
