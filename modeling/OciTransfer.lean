import OciTransfer.KeyedTable
import OciTransfer.TransitionRules
import OciTransfer.Guards
import OciTransfer.Records
import OciTransfer.QueueStore
import OciTransfer.QueueTransactions
import OciTransfer.QueueRuns
import OciTransfer.RowLifecycle
import OciTransfer.ClaimFencing
import OciTransfer.ClaimOrder
import OciTransfer.DestinationExclusion
import OciTransfer.BlobAggregates
import OciTransfer.TerminalFinality
import OciTransfer.WorkerExecution
import OciTransfer.CancellationRetention
import OciTransfer.ClaimOwnership
import OciTransfer.ManagerShutdown
import OciTransfer.SnapshotPinning
import OciTransfer.JsonValue
import OciTransfer.PinnedCopies
import OciTransfer.ErrorHistory
import OciTransfer.ProgressMonotonicity
import OciTransfer.IntegrityBudget
import OciTransfer.WorkerSurvival
import OciTransfer.CopyHandler
import OciTransfer.NoClobber
import OciTransfer.OperationTable
import OciTransfer.CopyStream
import OciTransfer.StreamCompletion
import OciTransfer.FramingIndependence
import OciTransfer.PermanentFailures
import OciTransfer.RetrySchedule
import OciTransfer.ConsecutiveFailures
import OciTransfer.NoProgressClock
import OciTransfer.TransientStatuses
import OciTransfer.ErrorClassification
import OciTransfer.OciReference
import OciTransfer.DestinationSpelling
import OciTransfer.ProviderTable
import OciTransfer.FixedWidth
import OciTransfer.TimestampOrder
import OciTransfer.ClaimTexts
import OciTransfer.Pruning
import OciTransfer.PruneCutoff
import OciTransfer.PlanGraph
import OciTransfer.PlanWalk
import OciTransfer.PlanCoverage
import OciTransfer.PlanDuplicates
import OciTransfer.ClientRecords
import OciTransfer.WireFormat
import OciTransfer.ReferenceGrammar
import OciTransfer.ExplicitReferences
import OciTransfer.ReusedBlobs
import OciTransfer.PrefixCode
import OciTransfer.JsonDumps
import OciTransfer.SnapshotDigest
import OciTransfer.Rewriting
import OciTransfer.Reading
import OciTransfer.Sanitizing
import OciTransfer.Redaction
import OciTransfer.Assignments
import OciTransfer.SanitizedText
import OciTransfer.ManagerClaims
import OciTransfer.LicenseProvider
import OciTransfer.ClaimHistory
import OciTransfer.JobPhases
import OciTransfer.JsonBeginnings
import OciTransfer.LeaseKeeping
import OciTransfer.VerifiedCompletion
import OciTransfer.Waiting
import OciTransfer.EventLines
import OciTransfer.PlanAnswers
import OciTransfer.PlanRequests
import OciTransfer.PlanStorage
import OciTransfer.CommandLine
import OciTransfer.CopyBodies
import OciTransfer.CredentialScope
import OciTransfer.Ranking
import OciTransfer.ServiceSettings
import OciTransfer.WorkerReturns
