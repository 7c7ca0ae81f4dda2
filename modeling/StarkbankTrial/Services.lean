import Mathlib.Algebra.Group.Int.Defs
import StarkbankTrial.ProviderClient

/-!
# The services of the application

The trial service issues and reconciles the drafts of a batch, the smoke service
issues single invoices, and the webhook service records what the provider reports.
What `uuid5` and the seeded generators return, and the order in which a set is
iterated, are parameters.
-/
namespace StarkbankTrial.Services
open Domain InteractivePrograms ExternalCalls ProviderClient StoreOperations EventRecording

/-! ### Drafts -/

structure Payer where
  name : String
  taxId : String
  amount : ℤ
deriving Repr, DecidableEq

/-- `uuid5` in the URL namespace, and the payer that the generator seeded with an
identifier draws at a position. -/
structure Generators where
  uuid5 : String → String
  payer : String → ℕ → Payer

variable (gen : Generators)

def buildInvoiceDrafts (batch : InvoiceBatch) (createdAt : ℤ) : List InvoiceDraft :=
  (List.range batch.targetCount.toNat).map fun ordinal =>
    let payer := gen.payer batch.id ordinal
    let id := gen.uuid5 (batch.id ++ ":draft:" ++ toString ordinal)
    { id := id, batchId := batch.id, ordinal := ordinal, payerName := payer.name
      payerTaxId := payer.taxId, amount := payer.amount, tag := "trial-draft:" ++ id
      status := .pending, attempts := 0, createdAt := createdAt }

def buildSmokeInvoice (reference : String) (amount : ℤ) (createdAt : ℤ) (space : String) :
    InvoiceDraft :=
  let draftId := gen.uuid5 ("starkbank-trial:smoke:" ++ space ++ ":" ++ reference)
  let payer := gen.payer draftId 0
  { id := draftId, batchId := "sandbox-smoke", ordinal := 0, payerName := payer.name
    payerTaxId := payer.taxId, amount := amount, tag := "trial-smoke:" ++ draftId
    status := .pending, attempts := 0, createdAt := createdAt }

/-! ### The trial service -/

structure TrialSettings where
  batchLeaseSeconds : ℤ := 300
  liveOperationsEnabled : Bool := true
  retryBaseSeconds : ℤ := 5
  invoiceMaxAttempts : ℕ := 5
  invoiceReconciliationMaxAttempts : ℕ := 5
  batchMaxAttempts : ℕ := 15
deriving Repr, DecidableEq

inductive TrialTickResult where
  | noBatch | completed | reconciling | degraded | retryPending | liveDisabled
deriving Repr, DecidableEq

def tickResult : BatchStatus → TrialTickResult
  | .completed => .completed
  | .reconciling => .reconciling
  | .degraded => .degraded
  | .scheduled | .issuing => .retryPending

variable (cfg : TrialSettings)

/-- Eight slots, one every three hours; the start must have an offset. -/
def buildSchedule (startAt : DateTime) (counts : List ℤ) : Except Failure (List ScheduleSlot) :=
  if startAt.utcoffset = none then .error .invalidStartTime
  else if counts.length ≠ 8 ∨ ∃ count ∈ counts, count < 8 ∨ 12 < count then
    .error (.invalidBatchCount counts)
  else .ok (counts.zipIdx.map fun (count, index) =>
    ⟨index, startAt.instant + seconds (index * 3 * 60 * 60), count⟩)

/-- `counts` are the batch counts that were drawn, and `runId` is the id of the new trial. -/
def start (runId : TrialRunId) (startAt : Option DateTime) (counts : List ℤ) :
    Service TrialRun := do
  if cfg.liveOperationsEnabled then
    let effectiveStart ← match startAt with
      | some startAt => .done startAt
      | none => do
          let time ← now
          pure ⟨time, some 0⟩
    match buildSchedule effectiveStart counts with
    | .error e => .raise e
    | .ok schedule =>
        callStore (.trials (.create gen.uuid5 runId ⟨effectiveStart.instant, schedule⟩))
  else
    .raise (.liveOperationsDisabled "trial_start")

def backoff (attempts : ℕ) : ℤ := seconds (cfg.retryBaseSeconds * 2 ^ min attempts 8)

def recordRetry (draft : InvoiceDraft) (error : ProviderError) (time : ℤ) : Service Unit := do
  let _ ← callStore (.invoices (.retry ⟨draft.id, error.kind.typeName, time⟩
    (backoff cfg draft.attempts) cfg.invoiceMaxAttempts))

def recordFailed (draft : InvoiceDraft) (error : ProviderError) (time : ℤ) : Service Unit :=
  callStore (.invoices (.failed ⟨draft.id, error.kind.typeName, time⟩))

def recordUnknown (draft : InvoiceDraft) (error : ProviderError) (time : ℤ) : Service Unit :=
  callStore (.invoices (.unknownResult ⟨draft.id, error.kind.typeName, time⟩))

def recordCreated (draft : InvoiceDraft) (invoice : ProviderInvoice) (time : ℤ) :
    Service Unit :=
  callStore (.invoices (.created ⟨draft.id, invoice.id, time⟩))

/-- Whether an attempted draft needs no new invoice in this tick. -/
def settleAttemptedDraft (draft : InvoiceDraft) (time : ℤ) : Service Bool := do
  match ← findInvoice draft.tag with
  | .error e =>
      if e.kind.isTransient then do
        recordRetry cfg draft e time
        pure true
      else do
        recordFailed draft e time
        pure true
  | .ok (some existing) => do
      recordCreated draft existing time
      pure true
  | .ok none => pure false

def createDraft (draft : InvoiceDraft) (time : ℤ) : Service Unit := do
  match ← createInvoice cfg.liveOperationsEnabled draft with
  | .ok invoice => recordCreated draft invoice time
  | .error e =>
      if e.kind.isTimeout then recordUnknown draft e time
      else if e.kind.isTransient then recordRetry cfg draft e time
      else recordFailed draft e time

def issueDraft (draft : InvoiceDraft) (time : ℤ) : Service Unit := do
  if 0 < draft.attempts then
    match ← settleAttemptedDraft cfg draft time with
    | true => pure ()
    | false => createDraft cfg draft time
  else
    createDraft cfg draft time

def tick : Service TrialTickResult := do
  if cfg.liveOperationsEnabled then
    let time ← now
    match ← callStore (.trials (.claimDueBatch
        ⟨time, time + seconds cfg.batchLeaseSeconds, cfg.batchMaxAttempts⟩)) with
    | none => pure .noBatch
    | some (batch : InvoiceBatch) => do
        callStore (.invoices (.save batch.id (buildInvoiceDrafts gen batch time)))
        let drafts ← callStore (.invoices (.pending batch.id time))
        Program.forEach (fun draft => issueDraft cfg draft time) drafts
        let status ← callStore (.invoices (.settle batch.id time))
        pure (tickResult status)
  else
    pure .liveDisabled

/-- The lookups of one pass, with the count and the batches so far. -/
def reconcileDrafts (time : ℤ) :
    List InvoiceDraft → ℕ → List BatchId → Service (ℕ × List BatchId)
  | [], reconciled, batches => pure (reconciled, batches)
  | draft :: drafts, reconciled, batches => do
      match ← findInvoice draft.tag with
      | .error e =>
          if e.kind.isTransient then reconcileDrafts time drafts reconciled batches
          else .raise (.provider e)
      | .ok invoice => do
          callStore (.invoices (.reconcile ⟨draft, invoice, time⟩
            ⟨cfg.invoiceMaxAttempts, cfg.invoiceReconciliationMaxAttempts,
              backoff cfg draft.attempts⟩))
          reconcileDrafts time drafts (if invoice.isSome then reconciled + 1 else reconciled)
            (if batches.contains draft.batchId then batches else batches ++ [draft.batchId])

def reconcileInvoices (setOrder : List BatchId → List BatchId) : Service ℕ := do
  let time ← now
  let drafts ← callStore (.invoices (.unknown time 100))
  let (reconciled, batches) ← reconcileDrafts cfg time drafts 0 []
  Program.forEach (fun batchId => do
    let _ ← callStore (.invoices (.settle batchId time))) (setOrder batches)
  pure reconciled

/-! ### The smoke service -/

def recordSmoke (draft : InvoiceDraft) (invoiceId : InvoiceId) (time : ℤ) : Service Unit := do
  callStore (.invoices (.registerSmoke draft time))
  callStore (.invoices (.bindProviderInvoice draft.tag invoiceId time))

/-- A create with an unknown outcome is looked up once more. -/
def createSmokeInvoice (draft : InvoiceDraft) : Service ProviderInvoice := do
  match ← createInvoice cfg.liveOperationsEnabled draft with
  | .ok created => pure created
  | .error e =>
      if e.kind = .unknownOutcome then
        match ← findInvoice draft.tag with
        | .ok (some reconciled) => pure reconciled
        | .ok none => .raise (.provider e)
        | .error e' => .raise (.provider e')
      else .raise (.provider e)

/-- One ordinal: the invoice, and whether it was there before. -/
def smokeInvoice (space reference : String) (amount : ℤ) (ordinal : ℕ) :
    Service (ProviderInvoice × Bool) := do
  let time ← now
  let draft := buildSmokeInvoice gen (reference ++ ":" ++ toString ordinal) amount time space
  callStore (.invoices (.registerSmoke draft time))
  match ← findInvoice draft.tag with
  | .error e => .raise (.provider e)
  | .ok (some existing) => do
      recordSmoke draft existing.id time
      pure (existing, true)
  | .ok none => do
      let created ← createSmokeInvoice cfg draft
      let createdAt ← now
      recordSmoke draft created.id createdAt
      pure (created, false)

def smokeInvoices (space reference : String) (amount : ℤ) :
    List ℕ → Service (List (ProviderInvoice × Bool))
  | [] => pure []
  | ordinal :: ordinals => do
      let first ← smokeInvoice gen cfg space reference amount ordinal
      let rest ← smokeInvoices space reference amount ordinals
      pure (first :: rest)

/-- `SmokeBatchService.run`: the invoices and how many were reused. -/
def runSmokeBatch (space reference : String) (count : ℕ) (amount : ℤ) :
    Service (List ProviderInvoice × ℕ) := do
  let results ← smokeInvoices gen cfg space reference amount (List.range count)
  pure (results.map (·.1), (results.filter (·.2)).length)

/-! ### The webhook service -/

/-- What the verifier makes of a delivery that it accepts or that is for another
workspace; a delivery that it refuses reaches no store. -/
inductive Delivery where
  | verified (event : VerifiedEvent) (payloadHash : String)
  | unexpectedWorkspace (event : IgnoredEvent) (payloadHash : String)
deriving Repr, DecidableEq

def receive (jobId : TransferJobId) : Delivery → Service EventWriteResult
  | .verified event payloadHash => do
      let time ← now
      callStore (.events (.record jobId (receivedRecord event payloadHash time)))
  | .unexpectedWorkspace event payloadHash => do
      let time ← now
      let _ ← callStore (.events (.recordIgnoredWorkspace
        (foreignRecord event payloadHash time)))
      .raise (.unexpectedWorkspace event.eventId)

end StarkbankTrial.Services
