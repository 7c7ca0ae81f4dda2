import Mathlib.Algebra.Group.Int.Defs
import StarkbankTrial.ProviderClient

/-!
# The transfer worker

One invocation claims a job, calls the provider and finishes the job. The command is
rebuilt from the claimed row on every attempt.
-/
namespace StarkbankTrial.TransferWorker
open Domain InteractivePrograms ExternalCalls ProviderClient StoreOperations

structure WorkerSettings where
  leaseSeconds : ℤ := 120
  retryBaseSeconds : ℤ := 5
  transferMaxAttempts : ℕ := 10
  liveOperationsEnabled : Bool := true
deriving Repr, DecidableEq

inductive WorkerResult where
  | idle | succeeded | retryScheduled | reconciliationScheduled | permanentFailure
  | liveDisabled
deriving Repr, DecidableEq

/-- What a worker uses of the provider. -/
structure TransferProvider where
  ensureTransfer : TransferCommand → Service (Except ProviderError ProviderTransfer)
  findTransfer : TransferCommand → Service (Except ProviderError (Option ProviderTransfer))

/-- The client of the provider in that role. -/
abbrev starkBankClient (live : Bool) : TransferProvider where
  ensureTransfer := ProviderClient.ensureTransfer live
  findTransfer := ProviderClient.findTransfer

variable (cfg : WorkerSettings) (provider : TransferProvider)

def backoff (job : TransferJob) : ℤ :=
  seconds (cfg.retryBaseSeconds * 2 ^ min (job.attempts - 1) 8)

/-! ### The four ways to finish a job -/

def finishSucceeded (job : TransferJob) (transfer : ProviderTransfer) (time : ℤ) :
    Service WorkerResult := do
  let _ ← callStore (.transfers (.succeeded job transfer time))
  pure .succeeded

def finishFailed (job : TransferJob) (errorCode : String) (time : ℤ) :
    Service WorkerResult := do
  let _ ← callStore (.transfers (.failed job errorCode time))
  pure .permanentFailure

def scheduleRetry (job : TransferJob) (errorCode : String) (time : ℤ) :
    Service WorkerResult := do
  let _ ← callStore (.transfers (.retry job errorCode time (backoff cfg job)))
  pure .retryScheduled

def scheduleReconciliation (job : TransferJob) (errorCode : String) (time : ℤ) :
    Service WorkerResult := do
  let _ ← callStore (.transfers (.unknown job errorCode time (backoff cfg job)))
  pure .reconciliationScheduled

/-! ### One claimed job -/

def finalizeAfterLookup (job : TransferJob) (command : TransferCommand) (time : ℤ) :
    Service WorkerResult := do
  match ← provider.findTransfer command with
  | .ok (some transfer) => finishSucceeded job transfer time
  | .ok none => finishFailed job "retry_exhausted" time
  | .error e =>
      if e.kind.isTransient then finishFailed job "retry_exhausted" time
      else .raise (.provider e)

def handleTimeout (job : TransferJob) (command : TransferCommand) (time : ℤ)
    (error : ProviderError) : Service WorkerResult :=
  if cfg.transferMaxAttempts ≤ job.attempts then finalizeAfterLookup provider job command time
  else scheduleReconciliation cfg job error.kind.typeName time

def handleTransient (job : TransferJob) (command : TransferCommand) (time : ℤ)
    (error : ProviderError) : Service WorkerResult :=
  if cfg.transferMaxAttempts ≤ job.attempts then finalizeAfterLookup provider job command time
  else scheduleRetry cfg job error.kind.typeName time

def handlePermanent (job : TransferJob) (time : ℤ) (error : ProviderError) :
    Service WorkerResult :=
  finishFailed job error.kind.typeName time

def reconcileUnknown (job : TransferJob) (command : TransferCommand) (time : ℤ) :
    Service WorkerResult := do
  match ← provider.findTransfer command with
  | .error e =>
      if e.kind.isTransient then
        if cfg.transferMaxAttempts ≤ job.attempts then finishFailed job "retry_exhausted" time
        else scheduleReconciliation cfg job e.kind.typeName time
      else finishFailed job e.kind.typeName time
  | .ok (some transfer) => finishSucceeded job transfer time
  | .ok none =>
      if cfg.transferMaxAttempts ≤ job.attempts then finishFailed job "retry_exhausted" time
      else scheduleRetry cfg job "reconciliation_not_found" time

def processClaimed (job : TransferJob) (time : ℤ) : Service WorkerResult := do
  let command := buildTransferCommand job.invoiceId job.netAmount
  if job.claimedFrom = some .unknown then
    reconcileUnknown cfg provider job command time
  else
    match ← provider.ensureTransfer command with
    | .ok transfer => finishSucceeded job transfer time
    | .error e =>
        if e.kind.isTimeout then handleTimeout cfg provider job command time e
        else if e.kind.isTransient then handleTransient cfg provider job command time e
        else handlePermanent job time e

def claimJob : Service (Option TransferJob) := do
  let time ← now
  callStore (.transfers (.claim ⟨time, time + seconds cfg.leaseSeconds⟩))

def processOne (cfg : WorkerSettings)
    (provider : TransferProvider := starkBankClient cfg.liveOperationsEnabled) :
    Service WorkerResult := do
  if cfg.liveOperationsEnabled then
    match ← claimJob cfg with
    | none => pure .idle
    | some job => do
        let time ← now
        processClaimed cfg provider job time
  else
    pure .liveDisabled

end StarkbankTrial.TransferWorker
