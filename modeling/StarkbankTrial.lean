import StarkbankTrial.InteractivePrograms
import StarkbankTrial.InterleavedRuns
import StarkbankTrial.RelationalTables
import StarkbankTrial.Domain
import StarkbankTrial.DatabaseSchema
import StarkbankTrial.BatchClaims
import StarkbankTrial.EventRecording
import StarkbankTrial.InvoiceRecording
import StarkbankTrial.TransferClaims
import StarkbankTrial.StoreOperations
import StarkbankTrial.EventJobCorrespondence
import StarkbankTrial.ExternalCalls
import StarkbankTrial.ProviderClient
import StarkbankTrial.TransferWorker
import StarkbankTrial.Services
import StarkbankTrial.JobChanges
import StarkbankTrial.TransferOnce
import StarkbankTrial.WorkerRules
import StarkbankTrial.JobLeases
import StarkbankTrial.InvoiceChanges
import StarkbankTrial.TrialRules
import StarkbankTrial.SharedWorkspace
import StarkbankTrial.CreatedDrafts
import StarkbankTrial.InvoiceOnce
import StarkbankTrial.BatchChanges
import StarkbankTrial.BatchLeases
import StarkbankTrial.LifecycleStatus
import StarkbankTrial.ReconcilePass
import StarkbankTrial.AttemptLimits
import StarkbankTrial.FailedTransfers
import StarkbankTrial.RedeliveredEvents
import StarkbankTrial.TrialInvariants
import StarkbankTrial.CoherentTrials
import StarkbankTrial.WaitingDrafts
import StarkbankTrial.InvoiceAttempts
import StarkbankTrial.BoundedCreations
import StarkbankTrial.SmokeBatches
import StarkbankTrial.KeysetPages
import StarkbankTrial.IsoDates
import StarkbankTrial.SqlSelections
import StarkbankTrial.UrlsafeBase64
import StarkbankTrial.ReviewCursors
import StarkbankTrial.ReviewStore
import StarkbankTrial.ReviewPages
import StarkbankTrial.LatestRegisters
import StarkbankTrial.LifecycleOrders
import StarkbankTrial.CreditFilters
import StarkbankTrial.ReviewOverview
import StarkbankTrial.ReadCommitted
import StarkbankTrial.RecordOutline
import StarkbankTrial.SharedTags
import StarkbankTrial.ConcurrentDeliveries
import StarkbankTrial.LockOrders
import StarkbankTrial.WebhookRuns
import StarkbankTrial.ConcurrentClaims
import StarkbankTrial.EventOutcomes
import StarkbankTrial.AcknowledgedDeliveries
import StarkbankTrial.TransferBalances
import StarkbankTrial.StoredColumns
import StarkbankTrial.EmergencyStop
import StarkbankTrial.OpenWork
import StarkbankTrial.AnsweredDrafts
import StarkbankTrial.AnsweringProvider
import StarkbankTrial.CompletedTrials
import StarkbankTrial.PaidInvoices
import StarkbankTrial.DataMigrations
import StarkbankTrial.SchemaMigrations
