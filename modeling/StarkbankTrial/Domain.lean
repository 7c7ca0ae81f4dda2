import Mathlib.Data.Int.Notation
import Mathlib.Data.Nat.Notation
import Mathlib.Tactic.SplitIfs

/-!
# Values of the domain

Identifiers are strings and amounts are whole cents. An instant counts
microseconds since the epoch in UTC, as `timestamptz` stores it. Only the time of a
lifecycle event arrives from outside as a wall clock with an optional offset; a
missing offset is read as UTC.
-/
namespace StarkbankTrial.Domain

abbrev BatchId := String
abbrev DraftId := String
abbrev EventId := String
abbrev ExternalId := String
abbrev InvoiceId := String
abbrev TrialRunId := String
abbrev TransferId := String
abbrev TransferJobId := String

/-- `timedelta(seconds=n)`. -/
def seconds (n : ℤ) : ℤ := n * 1000000

/-- A wall clock reading in microseconds with the offset it was written in. -/
structure DateTime where
  wall : ℤ
  utcoffset : Option ℤ
deriving Repr, DecidableEq

/-- The instant of the reading; a naive one is read as UTC. -/
def DateTime.instant (t : DateTime) : ℤ := t.wall - t.utcoffset.getD 0

/-! ### Statuses -/

inductive TrialStatus where
  | active | completed | stopped | degraded
deriving Repr, DecidableEq

def TrialStatus.value : TrialStatus → String
  | .active => "active"
  | .completed => "completed"
  | .stopped => "stopped"
  | .degraded => "degraded"

inductive BatchStatus where
  | scheduled | issuing | reconciling | completed | degraded
deriving Repr, DecidableEq

def BatchStatus.value : BatchStatus → String
  | .scheduled => "scheduled"
  | .issuing => "issuing"
  | .reconciling => "reconciling"
  | .completed => "completed"
  | .degraded => "degraded"

inductive DraftStatus where
  | pending | created | unknown | failed
deriving Repr, DecidableEq

def DraftStatus.value : DraftStatus → String
  | .pending => "pending"
  | .created => "created"
  | .unknown => "unknown"
  | .failed => "failed"

inductive TransferStatus where
  | pending | processing | unknown | succeeded | permanentFailure
deriving Repr, DecidableEq

def TransferStatus.value : TransferStatus → String
  | .pending => "pending"
  | .processing => "processing"
  | .unknown => "unknown"
  | .succeeded => "succeeded"
  | .permanentFailure => "permanent_failure"

/-! ### Events -/

structure CreditedInvoiceEvent where
  eventId : EventId
  invoiceId : InvoiceId
  amount : ℤ
  fee : ℤ
  workspaceId : String
  tags : List String := []
  subscription : String := "invoice"
  logType : String := "credited"
deriving Repr, DecidableEq

structure IgnoredEvent where
  eventId : EventId
  subscription : String
  logType : String
  workspaceId : String
deriving Repr, DecidableEq

structure TransferLifecycleEvent where
  eventId : EventId
  transferId : TransferId
  externalId : ExternalId
  status : String
  logType : String
  updatedAt : DateTime
  workspaceId : String
  subscription : String := "transfer"
deriving Repr, DecidableEq

inductive VerifiedEvent where
  | credited (event : CreditedInvoiceEvent)
  | ignored (event : IgnoredEvent)
  | lifecycle (event : TransferLifecycleEvent)
deriving Repr, DecidableEq

namespace VerifiedEvent

def eventId : VerifiedEvent → EventId
  | .credited e => e.eventId
  | .ignored e => e.eventId
  | .lifecycle e => e.eventId

def subscription : VerifiedEvent → String
  | .credited e => e.subscription
  | .ignored e => e.subscription
  | .lifecycle e => e.subscription

def logType : VerifiedEvent → String
  | .credited e => e.logType
  | .ignored e => e.logType
  | .lifecycle e => e.logType

def workspaceId : VerifiedEvent → String
  | .credited e => e.workspaceId
  | .ignored e => e.workspaceId
  | .lifecycle e => e.workspaceId

/-- The invoice that a stored event names. -/
def invoiceId : VerifiedEvent → Option InvoiceId
  | .credited e => some e.invoiceId
  | _ => none

/-- The transfer that a stored event names. -/
def transferId : VerifiedEvent → Option TransferId
  | .lifecycle e => some e.transferId
  | _ => none

end VerifiedEvent

structure EventRecord where
  event : VerifiedEvent
  payloadHash : String
  receivedAt : ℤ
  netAmount : Option ℤ
deriving Repr, DecidableEq

inductive EventWriteResult where
  | queued | ignored | ignoredWorkspace | rejected | duplicateEvent | duplicateInvoice
  | invoiceUnknown | transferUpdated | transferUnmatched | transferStale
deriving Repr, DecidableEq

def EventWriteResult.value : EventWriteResult → String
  | .queued => "queued"
  | .ignored => "ignored"
  | .ignoredWorkspace => "ignored_workspace"
  | .rejected => "rejected"
  | .duplicateEvent => "duplicate_event"
  | .duplicateInvoice => "duplicate_invoice"
  | .invoiceUnknown => "invoice_unknown"
  | .transferUpdated => "transfer_updated"
  | .transferUnmatched => "transfer_unmatched"
  | .transferStale => "transfer_stale"

/-! ### Money and transfer commands -/

structure InvalidAmountError where
  amount : ℤ
  fee : ℤ
deriving Repr, DecidableEq

def calculateNetAmount (amount fee : ℤ) : Except InvalidAmountError ℤ :=
  if amount ≤ 0 ∨ fee < 0 ∨ amount ≤ fee then .error ⟨amount, fee⟩ else .ok (amount - fee)

theorem calculateNetAmount_ok {amount fee net : ℤ}
    (h : calculateNetAmount amount fee = .ok net) :
    0 < amount ∧ 0 ≤ fee ∧ net = amount - fee ∧ 0 < net := by
  unfold calculateNetAmount at h
  split_ifs at h with hbad
  have hnet : amount - fee = net := Except.ok.inj h
  omega

structure Recipient where
  bankCode : String
  branchCode : String
  accountNumber : String
  name : String
  taxId : String
  accountType : String
deriving Repr, DecidableEq

def starkBankRecipient : Recipient where
  bankCode := "20018183"
  branchCode := "0001"
  accountNumber := "6341320293482496"
  name := "Stark Bank S.A."
  taxId := "20.018.183/0001-80"
  accountType := "payment"

structure TransferCommand where
  invoiceId : InvoiceId
  amount : ℤ
  externalId : ExternalId
  tag : String
  recipient : Recipient
deriving Repr, DecidableEq

def buildTransferCommand (invoiceId : InvoiceId) (amount : ℤ) : TransferCommand where
  invoiceId := invoiceId
  amount := amount
  externalId := "trial-transfer-" ++ invoiceId
  tag := "trial-transfer:" ++ invoiceId
  recipient := starkBankRecipient

/-- One external id belongs to one invoice. -/
theorem buildTransferCommand_externalId_inj {i j : InvoiceId} {a b : ℤ} :
    (buildTransferCommand i a).externalId = (buildTransferCommand j b).externalId ↔ i = j := by
  simp [buildTransferCommand]

theorem buildTransferCommand_tag_inj {i j : InvoiceId} {a b : ℤ} :
    (buildTransferCommand i a).tag = (buildTransferCommand j b).tag ↔ i = j := by
  simp [buildTransferCommand]

/-! ### Invoices -/

structure InvoiceDraft where
  id : DraftId
  batchId : BatchId
  ordinal : ℤ
  payerName : String
  payerTaxId : String
  amount : ℤ
  tag : String
  status : DraftStatus
  attempts : ℕ
  createdAt : ℤ
  nextAttemptAt : Option ℤ := none
deriving Repr, DecidableEq

structure ProviderInvoice where
  id : InvoiceId
  tag : String
deriving Repr, DecidableEq

structure DraftCreated where
  draftId : DraftId
  invoiceId : InvoiceId
  atTime : ℤ
deriving Repr, DecidableEq

structure DraftFailure where
  draftId : DraftId
  errorCode : String
  atTime : ℤ
deriving Repr, DecidableEq

structure InvoiceReconciliation where
  draft : InvoiceDraft
  providerInvoice : Option ProviderInvoice
  atTime : ℤ
deriving Repr, DecidableEq

/-! ### Trials and batches -/

structure ScheduleSlot where
  index : ℤ
  scheduledAt : ℤ
  targetCount : ℤ
deriving Repr, DecidableEq

structure NewTrial where
  startAt : ℤ
  schedule : List ScheduleSlot
deriving Repr, DecidableEq

structure TrialRun where
  id : TrialRunId
  status : TrialStatus
  startedAt : ℤ
  endsAt : ℤ
deriving Repr, DecidableEq

structure BatchClaim where
  now : ℤ
  leaseUntil : ℤ
  maxAttempts : ℕ := 15
deriving Repr, DecidableEq

structure InvoiceBatch where
  id : BatchId
  runId : TrialRunId
  slotIndex : ℤ
  scheduledAt : ℤ
  targetCount : ℤ
  status : BatchStatus
  leaseUntil : ℤ
  attempts : ℕ
deriving Repr, DecidableEq

/-! ### Transfer jobs -/

structure JobClaim where
  now : ℤ
  leaseUntil : ℤ
deriving Repr, DecidableEq

structure TransferJob where
  id : TransferJobId
  eventId : EventId
  invoiceId : InvoiceId
  amount : ℤ
  fee : ℤ
  netAmount : ℤ
  externalId : ExternalId
  tag : String
  status : TransferStatus
  attempts : ℕ
  leaseUntil : ℤ
  claimedFrom : Option TransferStatus := none
deriving Repr, DecidableEq

structure ProviderTransfer where
  id : TransferId
  externalId : ExternalId
  status : String
deriving Repr, DecidableEq

/-! ### Errors of the provider -/

/-- The classes of provider errors that the application tells apart. -/
inductive ProviderErrorKind where
  | transient | timeout | unknownOutcome | permanent
deriving Repr, DecidableEq

structure ProviderError where
  kind : ProviderErrorKind
  operation : String
deriving Repr, DecidableEq

namespace ProviderErrorKind

/-- `isinstance(error, ProviderTimeoutError)`. -/
def isTimeout : ProviderErrorKind → Bool
  | .timeout | .unknownOutcome => true
  | .transient | .permanent => false

/-- `isinstance(error, ProviderTransientError)`. -/
def isTransient : ProviderErrorKind → Bool
  | .permanent => false
  | _ => true

/-- `type(error).__name__`. -/
def typeName : ProviderErrorKind → String
  | .transient => "ProviderTransientError"
  | .timeout => "ProviderTimeoutError"
  | .unknownOutcome => "ProviderUnknownOutcomeError"
  | .permanent => "ProviderPermanentError"

end ProviderErrorKind
end StarkbankTrial.Domain
