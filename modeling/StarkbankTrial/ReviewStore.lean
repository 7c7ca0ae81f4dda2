import Mathlib.Data.Prod.Lex
import StarkbankTrial.DatabaseSchema
import StarkbankTrial.KeysetPages
import StarkbankTrial.ReviewCursors
import StarkbankTrial.SqlSelections

/-!
# The lists of the review API

Each of the five lists selects from its own table, most of them joined with others,
and counts the rows with a statement of its own. `mappingPage` turns the two
statements into a page. The order of texts is the collation of the database.
-/
namespace StarkbankTrial.ReviewStore
open Domain RelationalTables DatabaseSchema SqlSelections KeysetPages ReviewCursors

structure ReviewQuery where
  limit : ℕ := 25
  cursor : Option String := none
  trialId : Option TrialRunId := none
  statuses : List String := []
  fromAt : Option DateTime := none
  toAt : Option DateTime := none
  batchId : Option BatchId := none
  slotIndex : Option ℤ := none
  creditStatus : Option String := none
  providerInvoiceId : Option InvoiceId := none
  tag : Option String := none
  dispatchStatus : Option String := none
  providerStatus : Option String := none
  providerLogType : Option String := none
  invoiceId : Option InvoiceId := none
  providerTransferId : Option TransferId := none
  externalId : Option ExternalId := none
  subscription : Option String := none
  logType : Option String := none
  outcome : Option String := none
  resourceId : Option String := none
deriving Repr, DecidableEq

structure ReviewPage (P : Type) where
  items : List P
  nextCursor : Option String
  total : ℕ
deriving Repr, DecidableEq

/-- `str(uuid5(NAMESPACE_URL, "starkbank-trial:smoke-run"))`. -/
def smokeRunId : TrialRunId := "dc3db7c1-1cdf-5cec-b368-61344d2a3d67"

/-! ### Pages -/

/-- Texts under a collation. -/
def Collated (_collation : LinearOrder String) : Type := String

instance (collation : LinearOrder String) : LinearOrder (Collated collation) := collation

/-- The sort key of a list, a timestamp and an identifier. -/
abbrev ReviewKey (collation : LinearOrder String) := ℤ ×ₗ Collated collation

def reviewKey (collation : LinearOrder String) (timestamp : ℤ) (identifier : String) :
    ReviewKey collation := toLex (timestamp, identifier)

/-- What a list hands to `_mapping_page`: the joined tables, the parts of `WHERE`, the
answer of the count statement, the two columns of the order and the payload. -/
structure ReviewSelect (J P : Type) where
  source : List J
  conditions : List (J → Truth)
  count : ℕ
  timestamp : J → ℤ
  identifier : J → String
  mapper : J → P

section
variable {J P : Type}

def ReviewSelect.statement (select : ReviewSelect J P) : List J :=
  selectWhere select.conditions select.source

def ReviewSelect.key (collation : LinearOrder String) (select : ReviewSelect J P) (j : J) :
    ReviewKey collation :=
  reviewKey collation (select.timestamp j) (select.identifier j)

def page (rows : List P) (total limit : ℕ) (timestamps : List (DateTime × String)) : ReviewPage P where
  items := rows.take limit
  nextCursor :=
    if limit < rows.length then (timestamps[limit - 1]?).map fun p => cursor p.1 p.2 else none
  total := total

def mappingPage (collation : LinearOrder String) (select : ReviewSelect J P)
    (query : ReviewQuery) : Except ReviewError (ReviewPage P) := do
  let decoded ← decodeCursor query.cursor
  let statement :=
    match decoded with
    | none => select.statement
    | some (cursorTime, cursorId) =>
        select.statement.filter fun j =>
          select.timestamp j < cursorTime.instant ||
            (select.timestamp j = cursorTime.instant &&
              collation.lt (select.identifier j) cursorId)
  let rows := (descending (select.key collation) statement).take (query.limit + 1)
  .ok (page (rows.map select.mapper) select.count query.limit
    (rows.map fun j => (utc (select.timestamp j), select.identifier j)))

end

/-! ### Filters -/

section
variable {J A : Type}

def equalTo [DecidableEq A] (column : J → Option A) (value : Option A) : List (J → Truth) :=
  given value fun v j => equals (column j) (some v)

def statusIn (column : J → String) (statuses : List String) : List (J → Truth) :=
  if statuses = [] then [] else [fun j => among (some (column j)) (statuses.map some)]

def notSmoke (column : J → TrialRunId) : J → Truth :=
  fun j => neg (equals (some (column j)) (some smokeRunId))

def timeConditions (column : J → ℤ) (query : ReviewQuery) : List (J → Truth) :=
  given query.fromAt (fun v j => some (v.instant ≤ column j)) ++
    given query.toAt (fun v j => some (column j ≤ v.instant))

/-- A filter of the events is also left out when its text is empty. -/
def truthy (value : Option String) : Option String := value.filter (· ≠ "")

end

/-! ### Trials -/

structure TrialPayload where
  id : TrialRunId
  status : String
  startedAt : Option String
  endsAt : Option String
  createdAt : Option String
  completedAt : Option String
deriving Repr, DecidableEq

def trialPayload (row : TrialRunRow) : TrialPayload where
  id := row.id
  status := row.status.value
  startedAt := iso (some (utc row.startedAt))
  endsAt := iso (some (utc row.endsAt))
  createdAt := iso (some (utc row.createdAt))
  completedAt := iso (row.completedAt.map utc)

def trialsConditions (query : ReviewQuery) : List (TrialRunRow → Truth) :=
  notSmoke TrialRunRow.id :: (equalTo (fun r => some r.id) query.trialId ++
    statusIn (fun r => r.status.value) query.statuses ++
    timeConditions TrialRunRow.createdAt query)

def trialsSelect (db : Database Row) (query : ReviewQuery) :
    ReviewSelect TrialRunRow TrialPayload where
  source := db .trialRuns
  conditions := trialsConditions query
  count := (selectWhere (trialsConditions query) (db .trialRuns)).length
  timestamp := TrialRunRow.createdAt
  identifier := TrialRunRow.id
  mapper := trialPayload

def trials (collation : LinearOrder String) (db : Database Row) (query : ReviewQuery) :
    Except ReviewError (ReviewPage TrialPayload) :=
  mappingPage collation (trialsSelect db query) query

/-! ### Batches -/

structure BatchPayload where
  id : BatchId
  trialId : TrialRunId
  slotIndex : ℤ
  scheduledAt : Option String
  targetCount : ℤ
  status : String
  trialStatus : String
  attempts : ℕ
  leaseUntil : Option String
  completedAt : Option String
deriving Repr, DecidableEq

def batchPayload (row : InvoiceBatchRow × TrialRunRow) : BatchPayload where
  id := row.1.id
  trialId := row.1.runId
  slotIndex := row.1.slotIndex
  scheduledAt := iso (some (utc row.1.scheduledAt))
  targetCount := row.1.targetCount
  status := row.1.status.value
  trialStatus := row.2.status.value
  attempts := row.1.attempts
  leaseUntil := iso (row.1.leaseUntil.map utc)
  completedAt := iso (row.1.completedAt.map utc)

def batchesConditions (query : ReviewQuery) : List (InvoiceBatchRow → Truth) :=
  notSmoke InvoiceBatchRow.runId :: (equalTo (fun r => some r.runId) query.trialId ++
    statusIn (fun r => r.status.value) query.statuses ++
    equalTo (fun r => some r.slotIndex) query.slotIndex ++
    timeConditions InvoiceBatchRow.scheduledAt query)

/-- The rows are joined with their trials, the count is not. -/
def batchesSelect (db : Database Row) (query : ReviewQuery) :
    ReviewSelect (InvoiceBatchRow × TrialRunRow) BatchPayload where
  source := innerJoin (fun batch trial => equals (some trial.id) (some batch.runId))
    (db .invoiceBatches) (db .trialRuns)
  conditions := (batchesConditions query).map fun c j => c j.1
  count := (selectWhere (batchesConditions query) (db .invoiceBatches)).length
  timestamp := fun j => j.1.scheduledAt
  identifier := fun j => j.1.id
  mapper := batchPayload

def batches (collation : LinearOrder String) (db : Database Row) (query : ReviewQuery) :
    Except ReviewError (ReviewPage BatchPayload) :=
  mappingPage collation (batchesSelect db query) query

/-! ### Invoices -/

structure InvoicePayload where
  id : DraftId
  trialId : TrialRunId
  batchId : BatchId
  ordinal : ℤ
  amountCents : ℤ
  tag : String
  status : String
  creditStatus : String
  providerInvoiceId : Option InvoiceId
  attempts : ℕ
  reconcileAttempts : ℕ
  lastErrorCode : Option String
  creditedAt : Option String
  createdAt : Option String
  updatedAt : Option String
  nextAttemptAt : Option String
deriving Repr, DecidableEq

/-- `max(received_at)` of the events that name the invoice. -/
def creditedAt (db : Database Row) (draft : InvoiceDraftRow) : Option ℤ :=
  ((selectWhere [fun event => equals event.invoiceId draft.providerInvoiceId]
    (db .webhookEvents)).map WebhookEventRow.receivedAt).max?

def invoicePayload (db : Database Row) (row : InvoiceDraftRow × InvoiceBatchRow) :
    InvoicePayload where
  id := row.1.id
  trialId := row.2.runId
  batchId := row.1.batchId
  ordinal := row.1.ordinal
  amountCents := row.1.amount
  tag := row.1.tag
  status := row.1.status.value
  creditStatus := if (creditedAt db row.1).isSome then "credited" else "not_observed"
  providerInvoiceId := row.1.providerInvoiceId
  attempts := row.1.attempts
  reconcileAttempts := row.1.reconcileAttempts
  lastErrorCode := row.1.lastErrorCode
  creditedAt := iso ((creditedAt db row.1).map utc)
  createdAt := iso (some (utc row.1.createdAt))
  updatedAt := iso (some (utc row.1.updatedAt))
  nextAttemptAt := iso (some (utc row.1.nextAttemptAt))

/-- The invoices that some event names. -/
def eventInvoiceIds (db : Database Row) : List (Option InvoiceId) :=
  (selectWhere [fun event => some event.invoiceId.isSome] (db .webhookEvents)).map
    WebhookEventRow.invoiceId

/-- Any other text of `credit_status` filters nothing. -/
def creditConditions (db : Database Row) (query : ReviewQuery) :
    List (InvoiceDraftRow × InvoiceBatchRow → Truth) :=
  if query.creditStatus = some "credited" then
    [fun j => among j.1.providerInvoiceId (eventInvoiceIds db)]
  else if query.creditStatus = some "not_observed" then
    [fun j => neg (among j.1.providerInvoiceId (eventInvoiceIds db))]
  else []

def invoiceFilters (db : Database Row) (query : ReviewQuery) :
    List (InvoiceDraftRow × InvoiceBatchRow → Truth) :=
  equalTo (fun j => some j.2.runId) query.trialId ++
    equalTo (fun j => some j.1.batchId) query.batchId ++
    equalTo (fun j => j.1.providerInvoiceId) query.providerInvoiceId ++
    equalTo (fun j => some j.1.tag) query.tag ++
    statusIn (fun j => j.1.status.value) query.statuses ++
    creditConditions db query ++ timeConditions (fun j => j.1.createdAt) query

def invoicesJoin (db : Database Row) : List (InvoiceDraftRow × InvoiceBatchRow) :=
  innerJoin (fun draft batch => equals (some batch.id) (some draft.batchId))
    (db .invoiceDrafts) (db .invoiceBatches)

def invoicesSelect (db : Database Row) (query : ReviewQuery) :
    ReviewSelect (InvoiceDraftRow × InvoiceBatchRow) InvoicePayload where
  source := invoicesJoin db
  conditions := notSmoke (fun j => j.2.runId) :: invoiceFilters db query
  count := (selectWhere (notSmoke (fun j => j.2.runId) :: invoiceFilters db query)
    (invoicesJoin db)).length
  timestamp := fun j => j.1.createdAt
  identifier := fun j => j.1.id
  mapper := invoicePayload db

def invoices (collation : LinearOrder String) (db : Database Row) (query : ReviewQuery) :
    Except ReviewError (ReviewPage InvoicePayload) :=
  mappingPage collation (invoicesSelect db query) query

/-! ### Transfers -/

structure TransferPayload where
  id : TransferJobId
  trialId : Option TrialRunId
  batchId : Option BatchId
  eventId : EventId
  invoiceId : InvoiceId
  providerTransferId : Option TransferId
  amountCents : ℤ
  feeCents : ℤ
  netAmountCents : ℤ
  externalId : ExternalId
  tag : String
  dispatchStatus : String
  providerStatus : Option String
  providerLogType : Option String
  providerStatusUpdatedAt : Option String
  attempts : ℕ
  nextAttemptAt : Option String
  lastErrorCode : Option String
  createdAt : Option String
  updatedAt : Option String
deriving Repr, DecidableEq

/-- A job with its draft and the batch of the draft, as far as there are any. -/
abbrev JoinedJob := (TransferJobRow × Option InvoiceDraftRow) × Option InvoiceBatchRow

def JoinedJob.batchId (j : JoinedJob) : Option BatchId := j.1.2.map InvoiceDraftRow.batchId

def JoinedJob.runId (j : JoinedJob) : Option TrialRunId := j.2.map InvoiceBatchRow.runId

def transferPayload (row : JoinedJob) : TransferPayload where
  id := row.1.1.id
  trialId := row.runId
  batchId := row.batchId
  eventId := row.1.1.eventId
  invoiceId := row.1.1.invoiceId
  providerTransferId := row.1.1.providerTransferId
  amountCents := row.1.1.amount
  feeCents := row.1.1.fee
  netAmountCents := row.1.1.netAmount
  externalId := row.1.1.externalId
  tag := row.1.1.tag
  dispatchStatus := row.1.1.status.value
  providerStatus := row.1.1.providerStatus
  providerLogType := row.1.1.providerLogType
  providerStatusUpdatedAt := iso (row.1.1.providerStatusUpdatedAt.map utc)
  attempts := row.1.1.attempts
  nextAttemptAt := iso (some (utc row.1.1.nextAttemptAt))
  lastErrorCode := row.1.1.lastErrorCode
  createdAt := iso (some (utc row.1.1.createdAt))
  updatedAt := iso (some (utc row.1.1.updatedAt))

def transferFilters (query : ReviewQuery) : List (JoinedJob → Truth) :=
  equalTo JoinedJob.runId query.trialId ++ equalTo JoinedJob.batchId query.batchId ++
    equalTo (fun j => some j.1.1.invoiceId) query.invoiceId ++
    equalTo (fun j => j.1.1.providerTransferId) query.providerTransferId ++
    equalTo (fun j => some j.1.1.externalId) query.externalId ++
    equalTo (fun j => some j.1.1.status.value) query.dispatchStatus ++
    equalTo (fun j => j.1.1.providerStatus) query.providerStatus ++
    equalTo (fun j => j.1.1.providerLogType) query.providerLogType ++
    timeConditions (fun j => j.1.1.createdAt) query

def transfersJoin (db : Database Row) : List JoinedJob :=
  outerJoin (fun j batch => equals (some batch.id) (j.2.map InvoiceDraftRow.batchId))
    (outerJoin (fun job draft => equals draft.providerInvoiceId (some job.invoiceId))
      (db .transferJobs) (db .invoiceDrafts))
    (db .invoiceBatches)

/-- The count joins the other tables only where a filter needs them. -/
def transfersSelect (db : Database Row) (query : ReviewQuery) :
    ReviewSelect JoinedJob TransferPayload where
  source := transfersJoin db
  conditions := transferFilters query
  count :=
    if transferFilters query = [] then (db .transferJobs).length
    else (selectWhere (transferFilters query) (transfersJoin db)).length
  timestamp := fun j => j.1.1.createdAt
  identifier := fun j => j.1.1.id
  mapper := transferPayload

def transfers (collation : LinearOrder String) (db : Database Row) (query : ReviewQuery) :
    Except ReviewError (ReviewPage TransferPayload) :=
  mappingPage collation (transfersSelect db query) query

/-! ### Webhook events -/

structure EventPayload where
  id : EventId
  subscription : String
  logType : String
  invoiceId : Option InvoiceId
  transferId : Option TransferId
  outcome : String
  receivedAt : Option String
deriving Repr, DecidableEq

def eventPayload (row : WebhookEventRow) : EventPayload where
  id := row.id
  subscription := row.subscription
  logType := row.logType
  invoiceId := row.invoiceId
  transferId := row.transferId
  outcome := row.outcome.value
  receivedAt := iso (some (utc row.receivedAt))

/-- The invoices of a trial that the provider has named. -/
def trialInvoiceIds (db : Database Row) (trialId : TrialRunId) : List (Option InvoiceId) :=
  (selectWhere [fun j => equals (some j.2.runId) (some trialId),
    fun j => some j.1.providerInvoiceId.isSome] (invoicesJoin db)).map
    fun j => j.1.providerInvoiceId

def trialTransferIds (db : Database Row) (trialId : TrialRunId) : List (Option TransferId) :=
  (selectWhere [fun j => equals (some j.2.runId) (some trialId),
    fun j => some j.1.1.providerTransferId.isSome]
    (innerJoin (fun j batch => equals (some batch.id) (some j.2.batchId))
      (innerJoin (fun job draft => equals draft.providerInvoiceId (some job.invoiceId))
        (db .transferJobs) (db .invoiceDrafts))
      (db .invoiceBatches))).map fun j => j.1.1.providerTransferId

def eventFilters (db : Database Row) (query : ReviewQuery) : List (WebhookEventRow → Truth) :=
  equalTo (fun r => some r.subscription) (truthy query.subscription) ++
    equalTo (fun r => some r.logType) (truthy query.logType) ++
    equalTo (fun r => some r.outcome.value) (truthy query.outcome) ++
    given (truthy query.resourceId) (fun v r =>
      disj (equals r.invoiceId (some v)) (equals r.transferId (some v))) ++
    given query.trialId (fun v r =>
      disj (among r.invoiceId (trialInvoiceIds db v))
        (among r.transferId (trialTransferIds db v))) ++
    timeConditions WebhookEventRow.receivedAt query

def eventsSelect (db : Database Row) (query : ReviewQuery) :
    ReviewSelect WebhookEventRow EventPayload where
  source := db .webhookEvents
  conditions := eventFilters db query
  count := (selectWhere (eventFilters db query) (db .webhookEvents)).length
  timestamp := WebhookEventRow.receivedAt
  identifier := WebhookEventRow.id
  mapper := eventPayload

def events (collation : LinearOrder String) (db : Database Row) (query : ReviewQuery) :
    Except ReviewError (ReviewPage EventPayload) :=
  mappingPage collation (eventsSelect db query) query

end StarkbankTrial.ReviewStore
