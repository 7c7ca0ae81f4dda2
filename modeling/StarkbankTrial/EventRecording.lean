import StarkbankTrial.DatabaseSchema

/-!
# Recording of webhook events

The transactions of the event store. A savepoint around one statement is that
statement, which answers whether it was kept. The id that `uuid4` draws for a new
job is an argument. The notification sent after a job is queued has no effect on
the tables and is left out.
-/
namespace StarkbankTrial.EventRecording
open Domain InteractivePrograms RelationalTables Transaction DatabaseSchema
open DatabaseSchema.Table

def eventRow (record : EventRecord) (outcome : EventWriteResult) : WebhookEventRow where
  id := record.event.eventId
  subscription := record.event.subscription
  logType := record.event.logType
  invoiceId := record.event.invoiceId
  transferId := record.event.transferId
  workspaceId := record.event.workspaceId
  payloadHash := record.payloadHash
  outcome := outcome
  receivedAt := record.receivedAt

def initialOutcome (record : EventRecord) : EventWriteResult :=
  match record.event with
  | .ignored _ => .ignored
  | _ => if record.netAmount = none then .rejected else .queued

def insertEvent (record : EventRecord) (outcome : EventWriteResult) : Txn Bool :=
  insert webhookEvents [eventRow record outcome]

def markOutcome (eventId : EventId) (outcome : EventWriteResult) : Txn EventWriteResult := do
  let _ ← updateRows webhookEvents (fun e : WebhookEventRow => e.id == eventId)
    fun e => { e with outcome := outcome }
  pure outcome

def markDuplicate (eventId : EventId) : Txn EventWriteResult :=
  markOutcome eventId .duplicateInvoice

def markInvoiceUnknown (eventId : EventId) : Txn EventWriteResult :=
  markOutcome eventId .invoiceUnknown

/-! ### Ownership -/

/-- The conditional update that binds an owned tag to the invoice of the event. -/
def bindOwner (owner : OwnedInvoiceRow) (event : CreditedInvoiceEvent) (receivedAt : ℤ) :
    Txn (Option ℕ) :=
  update ownedInvoices
    (fun o : OwnedInvoiceRow => o.tag == owner.tag && o.providerInvoiceId == none)
    fun o => { o with providerInvoiceId := some event.invoiceId, updatedAt := receivedAt }

/-- The owner when no row has the invoice yet: the one row with a tag of the event. -/
def ownerByTag (event : CreditedInvoiceEvent) (receivedAt : ℤ) :
    Txn (Option OwnedInvoiceRow) := do
  let tags := event.tags.eraseDups
  if tags.isEmpty then
    pure none
  else
    let found ← select ownedInvoices fun o : OwnedInvoiceRow => tags.contains o.tag
    match found.take 2 with
    | [owner] =>
        if owner.providerInvoiceId != none && owner.providerInvoiceId != some event.invoiceId then
          pure none
        else
          match ← bindOwner owner event receivedAt with
          | none => pure none
          | some _ => pure (some owner)
    | _ => pure none

/-- The owner when a row has the invoice already: no other owned tag may be on the event. -/
def confirmOwner (owner : OwnedInvoiceRow) (event : CreditedInvoiceEvent) :
    Txn (Option OwnedInvoiceRow) := do
  if event.tags.isEmpty then
    pure (some owner)
  else
    let tagMatches ← select ownedInvoices fun o : OwnedInvoiceRow => event.tags.contains o.tag
    if tagMatches.any fun o : OwnedInvoiceRow => o.tag != owner.tag then
      pure none
    else
      pure (some owner)

def findOwner (event : CreditedInvoiceEvent) (receivedAt : ℤ) :
    Txn (Option OwnedInvoiceRow) := do
  let owners ← select ownedInvoices fun o : OwnedInvoiceRow =>
    o.providerInvoiceId == some event.invoiceId
  match owners with
  | [] => ownerByTag event receivedAt
  | owner :: _ => confirmOwner owner event

/-- The draft of the owner becomes created, unless it has another invoice. -/
def createOwnedDraft (owner : OwnedInvoiceRow) (event : CreditedInvoiceEvent)
    (receivedAt : ℤ) : Txn Unit :=
  match owner.draftId with
  | none => pure ()
  | some draftId => do
      let _ ← updateRows invoiceDrafts
        (fun d : InvoiceDraftRow => d.id == draftId &&
          (d.providerInvoiceId == none || d.providerInvoiceId == some event.invoiceId))
        fun d => { d with
          providerInvoiceId := some event.invoiceId
          status := .created
          updatedAt := receivedAt }

def ownsInvoice (event : CreditedInvoiceEvent) (receivedAt : ℤ) : Txn Bool := do
  match ← findOwner event receivedAt with
  | none => pure false
  | some owner => do
      createOwnedDraft owner event receivedAt
      pure true

/-! ### The transfer job of a credited event -/

def newJob (jobId : TransferJobId) (event : CreditedInvoiceEvent) (netAmount : ℤ)
    (receivedAt : ℤ) : TransferJobRow where
  id := jobId
  eventId := event.eventId
  invoiceId := event.invoiceId
  amount := event.amount
  fee := event.fee
  netAmount := netAmount
  externalId := (buildTransferCommand event.invoiceId netAmount).externalId
  tag := (buildTransferCommand event.invoiceId netAmount).tag
  status := .pending
  attempts := 0
  nextAttemptAt := receivedAt
  leaseUntil := none
  providerTransferId := none
  providerStatus := none
  providerLogType := none
  providerStatusUpdatedAt := none
  lastErrorCode := none
  createdAt := receivedAt
  updatedAt := receivedAt

def queueTransfer (jobId : TransferJobId) (event : CreditedInvoiceEvent) (netAmount : ℤ)
    (receivedAt : ℤ) : Txn EventWriteResult := do
  let jobs ← select transferJobs fun j : TransferJobRow => j.invoiceId == event.invoiceId
  match jobs with
  | _ :: _ => markDuplicate event.eventId
  | [] =>
      match ← insert transferJobs [newJob jobId event netAmount receivedAt] with
      | false => markDuplicate event.eventId
      | true => pure .queued

def promoteStored (jobId : TransferJobId) (record : EventRecord)
    (event : CreditedInvoiceEvent) (netAmount : ℤ) : Txn EventWriteResult := do
  match ← ownsInvoice event record.receivedAt with
  | false => pure .duplicateEvent
  | true =>
      match ← queueTransfer jobId event netAmount record.receivedAt with
      | .queued => markOutcome event.eventId .queued
      | outcome => pure outcome

/-- A redelivery queues the job that an unknown invoice did not get. -/
def recoverDuplicate (jobId : TransferJobId) (record : EventRecord) : Txn EventWriteResult := do
  match record.event, record.netAmount with
  | .credited event, some netAmount =>
      let stored ← select webhookEvents fun e : WebhookEventRow => e.id == event.eventId
      match stored with
      | [] => pure .duplicateEvent
      | row :: _ =>
          if row.payloadHash != record.payloadHash || row.outcome != .invoiceUnknown then
            pure .duplicateEvent
          else
            promoteStored jobId record event netAmount
  | _, _ => pure .duplicateEvent

/-! ### Lifecycle events -/

def lifecycleOutcome (job : Option TransferJobRow) (event : TransferLifecycleEvent) :
    EventWriteResult :=
  match job with
  | none => .transferUnmatched
  | some job =>
      match job.providerStatusUpdatedAt with
      | none => .transferUpdated
      | some stored =>
          if event.updatedAt.instant ≤ stored then .transferStale else .transferUpdated

def applyLifecycle (record : EventRecord) (event : TransferLifecycleEvent)
    (job : TransferJobRow) : TransferJobRow :=
  { job with
    providerTransferId := some event.transferId
    providerStatus := some event.status
    providerLogType := some event.logType
    providerStatusUpdatedAt := some event.updatedAt.instant
    updatedAt := record.receivedAt }

/-- The job is written only when the stored outcome says so. -/
def updateMatched (record : EventRecord) (event : TransferLifecycleEvent)
    (outcome : EventWriteResult) : Txn EventWriteResult := do
  if outcome = .transferUpdated then
    let _ ← updateRows transferJobs
      (fun j : TransferJobRow => j.externalId == event.externalId) (applyLifecycle record event)
    pure outcome
  else
    pure outcome

def recordTransferEvent (record : EventRecord) (event : TransferLifecycleEvent) :
    Txn EventWriteResult := do
  let jobs ← select transferJobs fun j : TransferJobRow => j.externalId == event.externalId
  let outcome := lifecycleOutcome jobs.head? event
  match ← insertEvent record outcome with
  | false => pure .duplicateEvent
  | true => updateMatched record event outcome

/-! ### The two entry points -/

def record (jobId : TransferJobId) (record : EventRecord) : Txn EventWriteResult :=
  match record.event with
  | .lifecycle event => recordTransferEvent record event
  | _ => do
      let outcome := initialOutcome record
      match ← insertEvent record outcome with
      | false => recoverDuplicate jobId record
      | true =>
          match record.event, record.netAmount with
          | .credited event, some netAmount =>
              match ← ownsInvoice event record.receivedAt with
              | false => markInvoiceUnknown event.eventId
              | true => queueTransfer jobId event netAmount record.receivedAt
          | _, _ => pure outcome

def recordIgnoredWorkspace (record : EventRecord) : Txn EventWriteResult := do
  match ← insertEvent record .ignoredWorkspace with
  | false => pure .duplicateEvent
  | true => pure .ignoredWorkspace

inductive EventStoreOp where
  | record (jobId : TransferJobId) (record : EventRecord)
  | recordIgnoredWorkspace (record : EventRecord)

def EventStoreOp.txn : EventStoreOp → Txn EventWriteResult
  | .record jobId r => EventRecording.record jobId r
  | .recordIgnoredWorkspace r => EventRecording.recordIgnoredWorkspace r

/-- What `WebhookService.receive` hands to the store for a verified event. -/
def receivedRecord (event : VerifiedEvent) (payloadHash : String) (receivedAt : ℤ) :
    EventRecord where
  event := event
  payloadHash := payloadHash
  receivedAt := receivedAt
  netAmount :=
    match event with
    | .credited e => (calculateNetAmount e.amount e.fee).toOption
    | _ => none

/-- What it hands to the store for an event of another workspace. -/
def foreignRecord (event : IgnoredEvent) (payloadHash : String) (receivedAt : ℤ) :
    EventRecord where
  event := .ignored event
  payloadHash := payloadHash
  receivedAt := receivedAt
  netAmount := none

end StarkbankTrial.EventRecording
