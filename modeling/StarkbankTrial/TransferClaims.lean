import StarkbankTrial.DatabaseSchema

/-!
# Claims of transfer jobs

The transactions of the transfer store. A claim leases the job until an instant, and
that instant is all that a later `finish` shows to prove that the job is still its own.
-/
namespace StarkbankTrial.TransferClaims
open Domain InteractivePrograms RelationalTables Transaction DatabaseSchema
open DatabaseSchema.Table

def toJob (row : TransferJobRow) (attempts : ℕ) (leaseUntil : ℤ) : TransferJob where
  id := row.id
  eventId := row.eventId
  invoiceId := row.invoiceId
  amount := row.amount
  fee := row.fee
  netAmount := row.netAmount
  externalId := row.externalId
  tag := row.tag
  status := .processing
  attempts := attempts
  leaseUntil := leaseUntil
  claimedFrom := some row.status

def claimable (claim : JobClaim) (j : TransferJobRow) : Bool :=
  ((j.status == .pending || j.status == .unknown) && j.nextAttemptAt ≤ claim.now) ||
    (j.status == .processing && j.leaseUntil.any fun lease => lease ≤ claim.now)

def claim (claim : JobClaim) : Txn (Option TransferJob) := do
  let row ← lockFirst transferJobs (claimable claim) fun a b : TransferJobRow =>
    a.nextAttemptAt ≤ b.nextAttemptAt
  match row with
  | none => pure none
  | some (row : TransferJobRow) => do
      let attempts := row.attempts + 1
      let _ ← updateRows transferJobs (fun j : TransferJobRow => j.id == row.id) fun j =>
        { j with
          status := .processing
          attempts := attempts
          leaseUntil := some claim.leaseUntil
          updatedAt := claim.now }
      pure (some (toJob row attempts claim.leaseUntil))

structure TransferSyncCandidate where
  id : TransferJobId
  invoiceId : InvoiceId
  netAmount : ℤ
deriving Repr, DecidableEq

def syncCandidates (limit : ℕ) : Txn (List TransferSyncCandidate) := do
  let rows ← select transferJobs fun j : TransferJobRow =>
    j.status == .succeeded && j.providerStatus == none
  let sorted := List.insertionSort (fun a b : TransferJobRow => a.createdAt ≤ b.createdAt) rows
  pure ((sorted.take limit).map fun j => ⟨j.id, j.invoiceId, j.netAmount⟩)

def refreshProviderStatus (jobId : TransferJobId) (transfer : ProviderTransfer) (now : ℤ) :
    Txn Unit := do
  let _ ← updateRows transferJobs (fun j : TransferJobRow => j.id == jobId) fun j =>
    { j with
      providerTransferId := some transfer.id
      providerStatus := some transfer.status
      providerStatusUpdatedAt := some now
      updatedAt := now }

/-! ### Finishing a claimed job -/

structure JobFinish where
  status : TransferStatus
  now : ℤ
  providerTransferId : Option TransferId
  errorCode : Option String
  nextAttemptAt : ℤ
  providerStatus : Option String := none
  providerLogType : Option String := none
  providerStatusUpdatedAt : Option ℤ := none
deriving Repr, DecidableEq

def JobFinish.apply (f : JobFinish) (j : TransferJobRow) : TransferJobRow :=
  { j with
    status := f.status
    nextAttemptAt := f.nextAttemptAt
    leaseUntil := none
    providerTransferId := f.providerTransferId
    providerStatus := f.providerStatus
    providerLogType := f.providerLogType
    providerStatusUpdatedAt := f.providerStatusUpdatedAt
    lastErrorCode := f.errorCode
    updatedAt := f.now }

/-- The row still carries the claim of this job. -/
def heldBy (job : TransferJob) (j : TransferJobRow) : Bool :=
  j.id == job.id && j.status == .processing && j.leaseUntil == some job.leaseUntil

def finish (job : TransferJob) (f : JobFinish) : Txn Bool := do
  let rowcount ← updateRows transferJobs (heldBy job) f.apply
  pure (rowcount == 1)

def JobFinish.succeeded (transfer : ProviderTransfer) (now : ℤ) : JobFinish :=
  { status := .succeeded, now := now, providerTransferId := some transfer.id
    errorCode := none, nextAttemptAt := now, providerStatus := some transfer.status
    providerStatusUpdatedAt := some now }

def JobFinish.retry (errorCode : String) (now delay : ℤ) : JobFinish :=
  { status := .pending, now := now, providerTransferId := none
    errorCode := some errorCode, nextAttemptAt := now + delay }

def JobFinish.unknown (errorCode : String) (now delay : ℤ) : JobFinish :=
  { status := .unknown, now := now, providerTransferId := none
    errorCode := some errorCode, nextAttemptAt := now + delay }

def JobFinish.failed (errorCode : String) (now : ℤ) : JobFinish :=
  { status := .permanentFailure, now := now, providerTransferId := none
    errorCode := some errorCode, nextAttemptAt := now }

def succeeded (job : TransferJob) (transfer : ProviderTransfer) (now : ℤ) : Txn Bool :=
  finish job (.succeeded transfer now)

def retry (job : TransferJob) (errorCode : String) (now delay : ℤ) : Txn Bool :=
  finish job (.retry errorCode now delay)

def unknown (job : TransferJob) (errorCode : String) (now delay : ℤ) : Txn Bool :=
  finish job (.unknown errorCode now delay)

def failed (job : TransferJob) (errorCode : String) (now : ℤ) : Txn Bool :=
  finish job (.failed errorCode now)

inductive TransferStoreOp where
  | claim (claim : JobClaim)
  | syncCandidates (limit : ℕ)
  | refreshProviderStatus (jobId : TransferJobId) (transfer : ProviderTransfer) (now : ℤ)
  | succeeded (job : TransferJob) (transfer : ProviderTransfer) (now : ℤ)
  | retry (job : TransferJob) (errorCode : String) (now delay : ℤ)
  | unknown (job : TransferJob) (errorCode : String) (now delay : ℤ)
  | failed (job : TransferJob) (errorCode : String) (now : ℤ)

abbrev TransferStoreOp.Result : TransferStoreOp → Type
  | .claim _ => Option TransferJob
  | .syncCandidates _ => List TransferSyncCandidate
  | .refreshProviderStatus _ _ _ => Unit
  | .succeeded _ _ _ => Bool
  | .retry _ _ _ _ => Bool
  | .unknown _ _ _ _ => Bool
  | .failed _ _ _ => Bool

def TransferStoreOp.txn : (op : TransferStoreOp) → Txn op.Result
  | .claim c => TransferClaims.claim c
  | .syncCandidates limit => TransferClaims.syncCandidates limit
  | .refreshProviderStatus jobId transfer now =>
      TransferClaims.refreshProviderStatus jobId transfer now
  | .succeeded job transfer now => TransferClaims.succeeded job transfer now
  | .retry job errorCode now delay => TransferClaims.retry job errorCode now delay
  | .unknown job errorCode now delay => TransferClaims.unknown job errorCode now delay
  | .failed job errorCode now => TransferClaims.failed job errorCode now

end StarkbankTrial.TransferClaims
