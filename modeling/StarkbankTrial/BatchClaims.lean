import StarkbankTrial.DatabaseSchema

/-!
# Claims of invoice batches

The writing transactions of the trial store. `uuid5` is the name based identifier in
the URL namespace; nothing here depends on how it is computed. The id of a new trial
is an argument.
-/
namespace StarkbankTrial.BatchClaims
open Domain InteractivePrograms RelationalTables Transaction DatabaseSchema
open DatabaseSchema.Table

def batchRow (uuid5 : String → String) (runId : TrialRunId) (startAt : ℤ)
    (slot : ScheduleSlot) : InvoiceBatchRow where
  id := uuid5 (runId ++ ":batch:" ++ toString slot.index)
  runId := runId
  slotIndex := slot.index
  scheduledAt := slot.scheduledAt
  targetCount := slot.targetCount
  status := .scheduled
  leaseUntil := none
  attempts := 0
  createdAt := startAt
  completedAt := none

def create (uuid5 : String → String) (runId : TrialRunId) (command : NewTrial) :
    Txn TrialRun := do
  let endsAt := command.startAt + seconds (24 * 60 * 60)
  insertRows trialRuns
    [{ id := runId, status := .active, startedAt := command.startAt, endsAt := endsAt,
       createdAt := command.startAt, completedAt := none, activeMarker := some 1 }]
  insertRows invoiceBatches (command.schedule.map (batchRow uuid5 runId command.startAt))
  pure ⟨runId, .active, command.startAt, endsAt⟩

/-! ### Claiming a due batch -/

/-- Scheduled, not finished and not leased to anybody at the time of the claim. -/
def claimable (claim : BatchClaim) (b : InvoiceBatchRow) : Bool :=
  b.scheduledAt ≤ claim.now &&
    (b.status == .scheduled || b.status == .issuing || b.status == .reconciling) &&
    b.leaseUntil.all fun lease => lease ≤ claim.now

def due (claim : BatchClaim) (b : InvoiceBatchRow) : Bool :=
  claimable claim b && b.attempts < claim.maxAttempts

def exhausted (claim : BatchClaim) (b : InvoiceBatchRow) : Bool :=
  claimable claim b && claim.maxAttempts ≤ b.attempts

def degradeExhaustedBatches (claim : BatchClaim) : Txn Unit := do
  let rowcount ← updateRows invoiceBatches (exhausted claim) fun b =>
    { b with status := .degraded, leaseUntil := none, completedAt := some claim.now }
  if rowcount = 0 then
    pure ()
  else do
    let degraded ← select invoiceBatches fun b : InvoiceBatchRow => b.status == .degraded
    let runIds := (degraded.map fun b : InvoiceBatchRow => b.runId).eraseDups
    Program.forEach (fun runId => do
      let _ ← updateRows trialRuns (fun r : TrialRunRow => r.id == runId)
        fun r => { r with status := .degraded, activeMarker := none }) runIds

def claimDueBatch (claim : BatchClaim) : Txn (Option InvoiceBatch) := do
  let row ← lockFirst invoiceBatches (due claim) fun a b : InvoiceBatchRow =>
    a.scheduledAt ≤ b.scheduledAt
  match row with
  | none => do
      degradeExhaustedBatches claim
      pure none
  | some (row : InvoiceBatchRow) => do
      let attempts := row.attempts + 1
      let _ ← updateRows invoiceBatches (fun b : InvoiceBatchRow => b.id == row.id) fun b =>
        { b with status := .issuing, leaseUntil := some claim.leaseUntil, attempts := attempts }
      pure (some
        { id := row.id, runId := row.runId, slotIndex := row.slotIndex
          scheduledAt := row.scheduledAt, targetCount := row.targetCount, status := .issuing
          leaseUntil := claim.leaseUntil, attempts := attempts })

inductive TrialStoreOp where
  | create (uuid5 : String → String) (runId : TrialRunId) (command : NewTrial)
  | claimDueBatch (claim : BatchClaim)

abbrev TrialStoreOp.Result : TrialStoreOp → Type
  | .create _ _ _ => TrialRun
  | .claimDueBatch _ => Option InvoiceBatch

def TrialStoreOp.txn : (op : TrialStoreOp) → Txn op.Result
  | .create uuid5 runId command => BatchClaims.create uuid5 runId command
  | .claimDueBatch claim => BatchClaims.claimDueBatch claim

end StarkbankTrial.BatchClaims
