import StarkbankTrial.ProviderClient

/-!
# Catching up on the status of transfers

The command `sync-transfer-statuses` asks the provider about jobs that succeeded before their
status was stored, one after the other. A lookup that raises or finds nothing leaves its job for
a later pass.
-/
namespace StarkbankTrial.StatusSync
open Domain InteractivePrograms ExternalCalls ProviderClient StoreOperations TransferClaims

/-- One job: whether its status was refreshed. -/
def syncCandidate (candidate : TransferSyncCandidate) : Service Bool := do
  match ← findTransfer (buildTransferCommand candidate.invoiceId candidate.netAmount) with
  | .error _ => pure false
  | .ok none => pure false
  | .ok (some transfer) => do
      let time ← now
      callStore (.transfers (.refreshProviderStatus candidate.id transfer time))
      pure true

/-- The loop, with the counts of the jobs that were refreshed and that were not. -/
def syncCandidates : List TransferSyncCandidate → ℕ → ℕ → Service (ℕ × ℕ)
  | [], refreshed, unresolved => pure (refreshed, unresolved)
  | candidate :: candidates, refreshed, unresolved => do
      match ← syncCandidate candidate with
      | true => syncCandidates candidates (refreshed + 1) unresolved
      | false => syncCandidates candidates refreshed (unresolved + 1)

def providerSyncTransferStatuses (limit : ℕ) : Service (ℕ × ℕ) := do
  let candidates ← callStore (.transfers (.syncCandidates limit))
  syncCandidates candidates 0 0

/-- A pass looks transfers up, reads the clock and refreshes what it found. -/
inductive Reads : Call → Prop
  | now : Reads .now
  | lookup (limit : ℕ) (tags : List String) : Reads (.transferQuery limit tags)
  | candidates (limit : ℕ) : Reads (.store (.transfers (.syncCandidates limit)))
  | refresh (jobId : TransferJobId) (transfer : ProviderTransfer) (time : ℤ) :
      Reads (.store (.transfers (.refreshProviderStatus jobId transfer time)))

theorem syncCandidate_issues (candidate : TransferSyncCandidate) :
    (syncCandidate candidate).Issues Reads := by
  have hfind : (findTransfer (buildTransferCommand candidate.invoiceId
      candidate.netAmount)).Issues Reads := ⟨.lookup _ _, fun _ => trivial⟩
  refine .bind hfind fun found => ?_
  rcases found with e | _ | transfer
  · trivial
  · trivial
  · refine ⟨.now, fun time => ⟨.refresh _ _ _, fun r => ?_⟩⟩
    cases r <;> trivial

theorem syncCandidates_issues (candidates : List TransferSyncCandidate)
    (refreshed unresolved : ℕ) : (syncCandidates candidates refreshed unresolved).Issues Reads := by
  induction candidates generalizing refreshed unresolved with
  | nil => trivial
  | cons candidate candidates ih =>
      refine .bind (syncCandidate_issues candidate) fun found => ?_
      cases found with
      | true => exact ih _ _
      | false => exact ih _ _

theorem providerSyncTransferStatuses_issues (limit : ℕ) :
    (providerSyncTransferStatuses limit).Issues Reads := by
  refine ⟨.candidates limit, fun r => ?_⟩
  cases r with
  | error e => trivial
  | ok candidates => exact syncCandidates_issues candidates 0 0

end StarkbankTrial.StatusSync
