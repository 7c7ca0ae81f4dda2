import StarkbankTrial.DatabaseSchema

/-!
# Recording of invoice drafts

The transactions of the invoice store. Every write after a provider call names the
draft by its id alone; `settle` names the batch by its id alone.
-/
namespace StarkbankTrial.InvoiceRecording
open Domain InteractivePrograms RelationalTables Transaction DatabaseSchema
open DatabaseSchema.Table

/-- The draft as the application sees a stored row. -/
def toDraft (row : InvoiceDraftRow) : InvoiceDraft where
  id := row.id
  batchId := row.batchId
  ordinal := row.ordinal
  payerName := row.payerName
  payerTaxId := row.payerTaxId
  amount := row.amount
  tag := row.tag
  status := row.status
  attempts := row.attempts
  createdAt := row.createdAt
  nextAttemptAt := some row.nextAttemptAt

def draftRow (draft : InvoiceDraft) : InvoiceDraftRow where
  id := draft.id
  batchId := draft.batchId
  ordinal := draft.ordinal
  payerName := draft.payerName
  payerTaxId := draft.payerTaxId
  amount := draft.amount
  tag := draft.tag
  status := draft.status
  providerInvoiceId := none
  attempts := draft.attempts
  reconcileAttempts := 0
  lastErrorCode := none
  createdAt := draft.createdAt
  updatedAt := draft.createdAt
  nextAttemptAt := draft.nextAttemptAt.getD draft.createdAt

def trialOwner (row : InvoiceDraftRow) : OwnedInvoiceRow where
  tag := row.tag
  providerInvoiceId := none
  source := "trial"
  draftId := some row.id
  createdAt := row.createdAt
  updatedAt := row.updatedAt

def save (batchId : BatchId) (drafts : List InvoiceDraft) : Txn Unit := do
  let existing ← select invoiceDrafts fun d : InvoiceDraftRow => d.batchId == batchId
  let rows := (drafts.filter fun draft =>
    !existing.any fun d : InvoiceDraftRow => d.id == draft.id).map draftRow
  if rows.isEmpty then
    pure ()
  else do
    insertRows invoiceDrafts rows
    insertRows ownedInvoices (rows.map trialOwner)

def registerSmoke (draft : InvoiceDraft) (atTime : ℤ) : Txn Unit := do
  let owner : OwnedInvoiceRow :=
    { tag := draft.tag, providerInvoiceId := none, source := "smoke", draftId := none,
      createdAt := atTime, updatedAt := atTime }
  match ← insertIfAbsent ownedInvoices owner with
  | true => pure ()
  | false => .raise .integrityError

def bindProviderInvoice (tag : String) (providerInvoiceId : InvoiceId) (atTime : ℤ) :
    Txn Unit := do
  let owners ← select ownedInvoices fun o : OwnedInvoiceRow => o.tag == tag
  match owners with
  | [] => .raise (.invoiceOwnershipConflict tag providerInvoiceId)
  | owner :: _ =>
      match owner.providerInvoiceId with
      | none =>
          match ← update ownedInvoices (fun o : OwnedInvoiceRow => o.tag == tag) fun o =>
            { o with providerInvoiceId := some providerInvoiceId, updatedAt := atTime } with
          | some _ => pure ()
          | none => .raise (.invoiceOwnershipConflict tag providerInvoiceId)
      | some current =>
          if current = providerInvoiceId then do
            let _ ← updateRows ownedInvoices (fun o : OwnedInvoiceRow => o.tag == tag)
              fun o => { o with updatedAt := atTime }
          else
            .raise (.invoiceOwnershipConflict tag providerInvoiceId)

/-! ### Queries -/

def orderBy {R : Type} (column : R → ℤ) (rows : List R) : List R :=
  rows.insertionSort fun a b => column a ≤ column b

def pending (batchId : BatchId) (now : ℤ) : Txn (List InvoiceDraft) := do
  let rows ← select invoiceDrafts fun d : InvoiceDraftRow =>
    d.batchId == batchId && d.status == .pending && d.nextAttemptAt ≤ now
  pure ((orderBy InvoiceDraftRow.ordinal rows).map toDraft)

def unknown (now : ℤ) (limit : ℕ) : Txn (List InvoiceDraft) := do
  let rows ← select invoiceDrafts fun d : InvoiceDraftRow =>
    d.status == .unknown && d.nextAttemptAt ≤ now
  pure (((orderBy InvoiceDraftRow.updatedAt rows).take limit).map toDraft)

/-! ### Results of provider calls -/

structure DraftTransition where
  draftId : DraftId
  status : DraftStatus
  atTime : ℤ
  providerInvoiceId : Option InvoiceId
  errorCode : Option String
  nextAttemptAt : ℤ
  resetReconcileAttempts : Bool := false

def DraftTransition.apply (t : DraftTransition) (d : InvoiceDraftRow) : InvoiceDraftRow :=
  { d with
    status := t.status
    providerInvoiceId := t.providerInvoiceId
    attempts := d.attempts + 1
    lastErrorCode := t.errorCode
    nextAttemptAt := t.nextAttemptAt
    reconcileAttempts := if t.resetReconcileAttempts then 0 else d.reconcileAttempts
    updatedAt := t.atTime }

def DraftTransition.applyOwner (t : DraftTransition) (o : OwnedInvoiceRow) : OwnedInvoiceRow :=
  { o with providerInvoiceId := t.providerInvoiceId, updatedAt := t.atTime }

/-- The draft row first, its owned row second. -/
def transition (t : DraftTransition) : Txn Unit := do
  let _ ← updateRows invoiceDrafts (fun d : InvoiceDraftRow => d.id == t.draftId) t.apply
  let _ ← updateRows ownedInvoices (fun o : OwnedInvoiceRow => o.draftId == some t.draftId)
    t.applyOwner

def DraftTransition.created (result : DraftCreated) : DraftTransition :=
  { draftId := result.draftId, status := .created, atTime := result.atTime
    providerInvoiceId := some result.invoiceId, errorCode := none
    nextAttemptAt := result.atTime, resetReconcileAttempts := true }

def DraftTransition.unknownResult (result : DraftFailure) : DraftTransition :=
  { draftId := result.draftId, status := .unknown, atTime := result.atTime
    providerInvoiceId := none, errorCode := some result.errorCode
    nextAttemptAt := result.atTime }

def DraftTransition.failed (result : DraftFailure) : DraftTransition :=
  { draftId := result.draftId, status := .failed, atTime := result.atTime
    providerInvoiceId := none, errorCode := some result.errorCode
    nextAttemptAt := result.atTime }

def created (result : DraftCreated) : Txn Unit := transition (.created result)

def unknownResult (result : DraftFailure) : Txn Unit := transition (.unknownResult result)

def failed (result : DraftFailure) : Txn Unit := transition (.failed result)

/-- The values that a retry writes; `draft` is the row that it read. -/
def retryDraft (result : DraftFailure) (delay : ℤ) (maxAttempts : ℕ) (draft : InvoiceDraftRow)
    (d : InvoiceDraftRow) : InvoiceDraftRow :=
  let attempts := draft.attempts + 1
  let exhausted := maxAttempts ≤ attempts
  { d with
    status := if exhausted then .failed else .pending
    providerInvoiceId := none
    attempts := attempts
    lastErrorCode := if exhausted then some "retry_exhausted" else some result.errorCode
    nextAttemptAt := if exhausted then result.atTime else result.atTime + delay
    updatedAt := result.atTime }

def retry (result : DraftFailure) (delay : ℤ) (maxAttempts : ℕ) : Txn Bool := do
  let row ← select invoiceDrafts fun d : InvoiceDraftRow => d.id == result.draftId
  let draft ← one row
  let _ ← updateRows invoiceDrafts (fun d : InvoiceDraftRow => d.id == result.draftId)
    (retryDraft result delay maxAttempts draft)
  pure !decide (maxAttempts ≤ draft.attempts + 1)

/-- The limits of a reconciliation. -/
structure ReconcileLimits where
  maxAttempts : ℕ
  maxReconciliationAttempts : ℕ
  retryDelay : ℤ

/-- The values for a lookup that found nothing; `stored` is the row that was read. -/
def missDraft (limits : ReconcileLimits) (draft : InvoiceDraft) (atTime : ℤ)
    (stored : InvoiceDraftRow) (d : InvoiceDraftRow) : InvoiceDraftRow :=
  let nextAttempts := stored.reconcileAttempts + 1
  let nextStatus :=
    if limits.maxReconciliationAttempts ≤ nextAttempts then DraftStatus.pending else .unknown
  let exhausted := nextStatus = .pending ∧ limits.maxAttempts ≤ draft.attempts
  { d with
    status := if exhausted then .failed else nextStatus
    reconcileAttempts := if nextStatus = .pending then 0 else nextAttempts
    lastErrorCode :=
      if exhausted then some "retry_exhausted" else some "reconciliation_not_found"
    nextAttemptAt := if exhausted then atTime else atTime + limits.retryDelay
    updatedAt := atTime }

def reconcileNotFound (limits : ReconcileLimits) (draft : InvoiceDraft) (atTime : ℤ) :
    Txn Unit := do
  let row ← select invoiceDrafts fun d : InvoiceDraftRow => d.id == draft.id
  let stored ← one row
  let _ ← updateRows invoiceDrafts (fun d : InvoiceDraftRow => d.id == draft.id)
    (missDraft limits draft atTime stored)

def reconcile (result : InvoiceReconciliation) (limits : ReconcileLimits) : Txn Unit :=
  match result.providerInvoice with
  | some invoice => created ⟨result.draft.id, invoice.id, result.atTime⟩
  | none => reconcileNotFound limits result.draft result.atTime

/-! ### Settling a batch -/

def countStatus (drafts : List InvoiceDraftRow) (status : DraftStatus) : ℕ :=
  (drafts.filter fun d => d.status == status).length

def settledStatus (batch : InvoiceBatchRow) (drafts : List InvoiceDraftRow) : BatchStatus :=
  if (countStatus drafts .created : ℤ) = batch.targetCount then .completed
  else if 0 < countStatus drafts .failed then .degraded
  else if 0 < countStatus drafts .unknown then .reconciling
  else .scheduled

def settleRun (runId : TrialRunId) (status : BatchStatus) (now : ℤ) : Txn Unit := do
  if status = .degraded then do
    let _ ← updateRows trialRuns (fun r : TrialRunRow => r.id == runId)
      fun r => { r with status := .degraded, activeMarker := none }
  else do
    let remaining ← select invoiceBatches fun b : InvoiceBatchRow =>
      b.runId == runId && b.status != .completed
    if remaining.length = 0 then do
      let _ ← updateRows trialRuns (fun r : TrialRunRow => r.id == runId)
        fun r => { r with status := .completed, activeMarker := none, completedAt := some now }
    else
      pure ()

def settle (batchId : BatchId) (now : ℤ) : Txn BatchStatus := do
  let batches ← select invoiceBatches fun b : InvoiceBatchRow => b.id == batchId
  let batch ← one batches
  let drafts ← select invoiceDrafts fun d : InvoiceDraftRow => d.batchId == batchId
  let status := settledStatus batch drafts
  let _ ← updateRows invoiceBatches (fun b : InvoiceBatchRow => b.id == batchId)
    fun b => { b with
      status := status
      leaseUntil := none
      completedAt := if status = .completed then some now else none }
  settleRun batch.runId status now
  pure status

/-! ### The operations -/

inductive InvoiceStoreOp where
  | save (batchId : BatchId) (drafts : List InvoiceDraft)
  | registerSmoke (draft : InvoiceDraft) (atTime : ℤ)
  | bindProviderInvoice (tag : String) (providerInvoiceId : InvoiceId) (atTime : ℤ)
  | pending (batchId : BatchId) (now : ℤ)
  | unknown (now : ℤ) (limit : ℕ)
  | created (result : DraftCreated)
  | unknownResult (result : DraftFailure)
  | retry (result : DraftFailure) (delay : ℤ) (maxAttempts : ℕ)
  | failed (result : DraftFailure)
  | reconcile (result : InvoiceReconciliation) (limits : ReconcileLimits)
  | settle (batchId : BatchId) (now : ℤ)

abbrev InvoiceStoreOp.Result : InvoiceStoreOp → Type
  | .save _ _ => Unit
  | .registerSmoke _ _ => Unit
  | .bindProviderInvoice _ _ _ => Unit
  | .pending _ _ => List InvoiceDraft
  | .unknown _ _ => List InvoiceDraft
  | .created _ => Unit
  | .unknownResult _ => Unit
  | .retry _ _ _ => Bool
  | .failed _ => Unit
  | .reconcile _ _ => Unit
  | .settle _ _ => BatchStatus

def InvoiceStoreOp.txn : (op : InvoiceStoreOp) → Txn op.Result
  | .save batchId drafts => InvoiceRecording.save batchId drafts
  | .registerSmoke draft atTime => InvoiceRecording.registerSmoke draft atTime
  | .bindProviderInvoice tag id atTime => InvoiceRecording.bindProviderInvoice tag id atTime
  | .pending batchId now => InvoiceRecording.pending batchId now
  | .unknown now limit => InvoiceRecording.unknown now limit
  | .created result => InvoiceRecording.created result
  | .unknownResult result => InvoiceRecording.unknownResult result
  | .retry result delay maxAttempts => InvoiceRecording.retry result delay maxAttempts
  | .failed result => InvoiceRecording.failed result
  | .reconcile result limits => InvoiceRecording.reconcile result limits
  | .settle batchId now => InvoiceRecording.settle batchId now

end StarkbankTrial.InvoiceRecording
