import StarkbankTrial.RowClaims
import StarkbankTrial.JobChanges
import StarkbankTrial.BatchChanges

/-!
# Concurrent claims of jobs and batches

Each session runs one transaction of the application, statement by statement. Within a
window that is shorter than the leases and the delays of retries, no job and no batch is
handed out twice. A claim of a job skips what other sessions have locked and waits for
nothing.
-/
namespace StarkbankTrial.ConcurrentClaims
open Domain InteractivePrograms InterleavedRuns RelationalTables RowVersions ReadCommitted
open Transaction DatabaseSchema StoreOperations RowClaims
open DatabaseSchema.Table

section
variable {taken : (u : Table) → Row u → Prop} {t : Table} {A : Type}

/-- What writes only other tables is harmless to this one. -/
theorem harmless_of_writes {tables : List Table} {p : Txn A} (h : WritesOnly tables p)
    (ht : t ∉ tables) : p.Issues (Harmless metadata taken t) := by
  refine Program.Issues.mono h fun st hst => ?_
  cases st with
  | update u condition assign =>
      rintro rfl
      exact absurd (hst u rfl) ht
  | _ => trivial

theorem harmless_discard {p : Txn A} (h : p.Issues (Harmless metadata taken t)) :
    (p >>= fun _ => pure ()).Issues (Harmless metadata taken t) := h.bind fun _ => trivial

end

/-! ### Jobs -/

namespace Jobs
open TransferClaims EventRecording JobChanges

/-- The job that the operation hands out. -/
def handedOut : (op : StoreOp) → op.Result → Option TransferJob
  | .transfers (.claim _), job => job
  | _, _ => none

def transaction (op : StoreOp) : Txn (Option TransferJob) := do
  let r ← op.txn
  pure (handedOut op r)

/-- Claims look for jobs until the instant and lease them for longer, and a job that is
rescheduled is due later. -/
def Within (horizon : ℤ) : StoreOp → Prop
  | .transfers (.claim claim) => claim.now ≤ horizon ∧ horizon < claim.leaseUntil
  | .transfers (.retry _ _ now delay) => horizon < now + delay
  | .transfers (.unknown _ _ now delay) => horizon < now + delay
  | _ => True

/-- No claim until the instant finds the job due. -/
def taken (horizon : ℤ) : (u : Table) → Row u → Prop
  | .transferJobs, j => claimable ⟨horizon, horizon⟩ j = false
  | _, _ => True

def jobClaim (claim : JobClaim) : Claim Row transferJobs where
  due := claimable claim
  before := fun a b : TransferJobRow => a.nextAttemptAt ≤ b.nextAttemptAt
  take := claimed claim

def role : StoreOp → Role Row transferJobs StoreError TransferJob
  | .transfers (.claim claim) => .claims (jobClaim claim) (pure ())
      fun row : TransferJobRow => toJob row (row.attempts + 1) claim.leaseUntil
  | op => .other (op.txn >>= fun _ => pure ())

theorem role_txn (op : StoreOp) : (role op).txn metadata .integrityError = transaction op := by
  have hother : ∀ {A : Type} (p : Txn A), ((p >>= fun _ => pure ()) >>= fun _ =>
      pure (none : Option TransferJob)) = p >>= fun _ => pure none := fun p => by simp
  cases op with
  | transfers op =>
      cases op with
      | claim claim =>
          refine congrArg (Program.call _) (funext fun row => ?_)
          cases row with
          | none => rfl
          | some row =>
              refine congrArg (Program.call _) (funext fun n => ?_)
              cases n <;> rfl
      | _ => exact hother _
  | _ => exact hother _

theorem claimable_mono {claim : JobClaim} {horizon : ℤ} (h : claim.now ≤ horizon)
    {j : TransferJobRow} (hj : claimable claim j = true) :
    claimable ⟨horizon, horizon⟩ j = true := by
  simp only [claimable, Bool.or_eq_true, Bool.and_eq_true, decide_eq_true_eq] at hj ⊢
  rcases hj with ⟨hstatus, hdue⟩ | ⟨hstatus, hlease⟩
  · exact .inl ⟨hstatus, hdue.trans h⟩
  · refine .inr ⟨hstatus, ?_⟩
    cases hj : j.leaseUntil with
    | none => simp [hj] at hlease
    | some lease =>
        rw [hj, Option.any_some, decide_eq_true_eq] at hlease
        simpa using hlease.trans h

theorem jobClaim_exclusive {claim : JobClaim} {horizon : ℤ}
    (h : Within horizon (.transfers (.claim claim))) :
    Exclusive metadata (taken horizon) (jobClaim claim) where
  due r hdue htaken := by
    rw [taken, claimable_mono h.1 hdue] at htaken
    cases htaken
  take r a := by
    obtain ⟨-, hlease⟩ := h
    simpa [taken, jobClaim, claimed, claimable] using hlease
  key _ _ := rfl
  clash _ _ _ := rfl
  check _ _ := rfl

/-! What the other transactions do to a job. -/

section
variable {horizon : ℤ}

abbrev Spares (horizon : ℤ) {A : Type} (p : Txn A) : Prop :=
  p.Issues (Harmless metadata (taken horizon) transferJobs)

theorem finish_spares {job : TransferJob} {f : JobFinish}
    (h : f.status ≠ .processing ∧ (f.status = .pending ∨ f.status = .unknown →
      horizon < f.nextAttemptAt)) : Spares horizon (finish job f) := by
  simp only [Spares, finish, issues_updateRows_bind]
  refine ⟨fun _ j => ⟨rfl, fun _ => ?_⟩, fun _ => trivial⟩
  obtain ⟨hstatus, hlater⟩ := h
  cases hf : f.status with
  | processing => exact absurd hf hstatus
  | pending => simpa [taken, claimable, JobFinish.apply, hf] using hlater (.inl hf)
  | unknown => simpa [taken, claimable, JobFinish.apply, hf] using hlater (.inr hf)
  | succeeded => simp [taken, claimable, JobFinish.apply, hf]
  | permanentFailure => simp [taken, claimable, JobFinish.apply, hf]

theorem refreshProviderStatus_spares (jobId : TransferJobId) (transfer : ProviderTransfer)
    (now : ℤ) : Spares horizon (refreshProviderStatus jobId transfer now) := by
  simp only [Spares, refreshProviderStatus, issues_updateRows_bind]
  exact ⟨fun _ j => ⟨rfl, fun htaken => htaken⟩, fun _ => trivial⟩

theorem recordTransferEvent_spares (r : EventRecord) (event : TransferLifecycleEvent) :
    Spares horizon (recordTransferEvent r event) := by
  simp only [Spares, recordTransferEvent, select_bind, insertEvent, insert_bind,
    Program.issues_call, Bool.forall_bool]
  refine ⟨trivial, fun jobs => ⟨trivial, trivial, ?_⟩⟩
  simp only [updateMatched, Program.issues_ite, issues_updateRows_bind]
  exact ⟨fun _ => ⟨fun _ j => ⟨rfl, fun htaken => htaken⟩, fun _ => trivial⟩, fun _ => trivial⟩

theorem queueTransfer_spares (jobId : TransferJobId) (event : CreditedInvoiceEvent)
    (netAmount receivedAt : ℤ) : Spares horizon (queueTransfer jobId event netAmount receivedAt) := by
  have hmark : Spares horizon (markDuplicate event.eventId) :=
    harmless_of_writes (markOutcome_writes _ _) (by simp)
  simp only [Spares, queueTransfer, select_bind, Program.issues_call]
  refine ⟨trivial, fun jobs => ?_⟩
  cases jobs with
  | cons job rest => exact hmark
  | nil =>
      simp only [insert_bind, Program.issues_call, Bool.forall_bool]
      exact ⟨trivial, hmark, trivial⟩

theorem ownsInvoice_spares (event : CreditedInvoiceEvent) (receivedAt : ℤ) :
    Spares horizon (ownsInvoice event receivedAt) :=
  harmless_of_writes (ownsInvoice_writes event receivedAt) (by simp)

theorem recoverDuplicate_spares (jobId : TransferJobId) (r : EventRecord) :
    Spares horizon (recoverDuplicate jobId r) := by
  unfold recoverDuplicate
  split
  · simp only [Spares, select_bind, Program.issues_call]
    refine ⟨trivial, fun stored => ?_⟩
    cases stored with
    | nil => trivial
    | cons row rest =>
        simp only [Program.issues_ite]
        refine ⟨fun _ => trivial, fun _ => .bind (ownsInvoice_spares _ _) ?_⟩
        rintro (_ | _)
        · trivial
        · refine .bind (queueTransfer_spares _ _ _ _) fun outcome => ?_
          split
          · exact harmless_of_writes (markOutcome_writes _ _) (by simp)
          · trivial
  · trivial

theorem record_spares (jobId : TransferJobId) (r : EventRecord) :
    Spares horizon (EventRecording.record jobId r) := by
  unfold EventRecording.record
  split
  · exact recordTransferEvent_spares _ _
  · simp only [Spares, insertEvent, insert_bind, Program.issues_call, Bool.forall_bool]
    refine ⟨trivial, recoverDuplicate_spares jobId r, ?_⟩
    split
    · refine .bind (ownsInvoice_spares _ _) ?_
      rintro (_ | _)
      · exact harmless_of_writes (markOutcome_writes _ _) (by simp)
      · exact queueTransfer_spares _ _ _ _
    · trivial

/-- Every session is a claim that takes the row, or leaves taken jobs alone. -/
theorem role_safe {op : StoreOp} (h : Within horizon op) :
    (role op).Safe metadata (taken horizon) := by
  have hwrites : ∀ op : StoreOp, transferJobs ∉ op.tables → Spares horizon op.txn :=
    fun op ht => harmless_of_writes op.writes ht
  cases op with
  | events op =>
      refine harmless_discard ?_
      cases op with
      | record jobId r => exact record_spares jobId r
      | recordIgnoredWorkspace r => exact hwrites (.events (.recordIgnoredWorkspace r)) (by
          simp [StoreOp.tables, EventStoreOp.tables])
  | invoices op =>
      refine harmless_discard (hwrites (.invoices op) ?_)
      cases op <;> simp [StoreOp.tables, InvoiceStoreOp.tables]
  | trials op =>
      refine harmless_discard (hwrites (.trials op) ?_)
      cases op <;> simp [StoreOp.tables, TrialStoreOp.tables]
  | transfers op =>
      cases op with
      | claim claim => exact ⟨jobClaim_exclusive h, trivial⟩
      | syncCandidates limit => exact harmless_discard (hwrites (.transfers (.syncCandidates limit))
          (by simp [StoreOp.tables, TransferStoreOp.tables]))
      | refreshProviderStatus jobId transfer now =>
          exact harmless_discard (refreshProviderStatus_spares jobId transfer now)
      | succeeded job transfer now =>
          exact harmless_discard (finish_spares (by simp [JobFinish.succeeded]))
      | retry job errorCode now delay =>
          exact harmless_discard (finish_spares ⟨by simp [JobFinish.retry], fun _ => h⟩)
      | unknown job errorCode now delay =>
          exact harmless_discard (finish_spares ⟨by simp [JobFinish.unknown], fun _ => h⟩)
      | failed job errorCode now =>
          exact harmless_discard (finish_spares (by simp [JobFinish.failed]))

end

/-! Over every interleaving. -/

variable {ι : Type} [DecidableEq ι]

/-- What claims have done by some moment. -/
structure HandedOutOnce (ops : ι → StoreOp) (horizon : ℤ)
    (c : Config ι (SessionOp Row) SessionOp.Answer StoreError (Option TransferJob)
      (Versions ι Row)) : Prop where
  apart : ∀ i j, i ≠ j → ∀ job job', returned c i = some (some job) →
    returned c j = some (some job') → job.id ≠ job'.id
  leased : ∀ i job, returned c i = some (some job) → ∃ j ∈ committedRows c.state transferJobs,
    j.id = job.id ∧ claimable ⟨horizon, horizon⟩ j = false
  waitless : ∀ i claim, ops i = .transfers (.claim claim) →
    ∀ (op : SessionOp Row) (next : op.Answer → Session Row StoreError (Option TransferJob)),
      c.procs i = some (.call op next) → ∃ r s, perform metadata i op c.state = some (r, s)

theorem role_returns {op : StoreOp} {row : TransferJobRow} {job : TransferJob}
    (h : (role op).Returns row job) : job.id = row.id := by
  cases op with
  | transfers op =>
      cases op with
      | claim claim => exact h ▸ rfl
      | _ => exact h.elim
  | _ => exact h.elim

/-- Until the leases run out and retries are due, every job is handed out at most once. -/
theorem jobs_handed_out_once {ops : ι → StoreOp} {horizon : ℤ} {db : Database Row}
    (hdb : metadata.Consistent db) (hwithin : ∀ i, Within horizon (ops i))
    {c : Config ι (SessionOp Row) SessionOp.Answer StoreError (Option TransferJob)
      (Versions ι Row)}
    (h : Runs (system metadata fun i => transaction (ops i)) (.initial (untouched db)) c) :
    HandedOutOnce ops horizon c := by
  have hsafe : ∀ i, (role (ops i)).Safe metadata (taken horizon) := fun i => role_safe (hwithin i)
  simp only [← role_txn] at h
  refine ⟨fun i j hij job job' hi hj => ?_, fun i job hi => ?_, fun i claim hi op next hp => ?_⟩
  · obtain ⟨row, row', hrow, hrow', hkey⟩ := claims_apart hdb hsafe h hij hi hj
    rw [role_returns hrow, role_returns hrow']
    exact hkey
  · obtain ⟨row, hrow, q, hq, hkey, htaken⟩ := claims_taken hdb hsafe h hi
    exact ⟨q, hq, hkey.trans (role_returns hrow).symm, htaken⟩
  · exact claim_waitless hdb hsafe h (by rw [hi]; trivial) hp

def twoDue : Database Row
  | .transferJobs => [newJob "j" { eventId := "e", invoiceId := "x", amount := 100, fee := 1
                                   workspaceId := "w" } 99 0,
                      newJob "k" { eventId := "f", invoiceId := "y", amount := 100, fee := 1
                                   workspaceId := "w" } 99 1]
  | _ => []

/-- Two workers claim at the same time, and a third reschedules a job. -/
def threeWorkers (i : Fin 3) : StoreOp :=
  if i.val = 2 then
    .transfers (.retry (toJob (newJob "j" { eventId := "e", invoiceId := "x", amount := 100
                                            fee := 1, workspaceId := "w" } 99 0) 1 20)
      "ProviderTransientError" 10 20)
  else .transfers (.claim ⟨10, 20⟩)

/-- The second lock is taken before the first claim has written its row. -/
theorem jobs_handed_out_once_threeWorkers : ∃ c : Config (Fin 3) (SessionOp Row) SessionOp.Answer
    StoreError (Option TransferJob) (Versions (Fin 3) Row),
    HandedOutOnce threeWorkers 15 c ∧
      (returned c 0).map (Option.map TransferJob.id) = some (some "j") ∧
      (returned c 1).map (Option.map TransferJob.id) = some (some "k") := by
  have hends : (playAll (performIf metadata fun _ _ _ _ => True) (.initial (untouched twoDue))
      (inOrder (fun i => transaction (threeWorkers i)) [0, 1, 1, 0, 1, 0, 2, 2])).map (fun c =>
        ((returned c 0).map (Option.map TransferJob.id),
          (returned c 1).map (Option.map TransferJob.id))) =
      some (some (some "j"), some (some "k")) := by
    decide +kernel
  obtain ⟨c, hplay, hc⟩ := Option.map_eq_some_iff.mp hends
  obtain ⟨h₀, h₁⟩ := Prod.mk.inj hc
  have hwithin : ∀ i, Within 15 (threeWorkers i) := by
    intro i
    unfold threeWorkers
    split_ifs
    · exact (by decide : (15 : ℤ) < 10 + 20)
    · exact ⟨by decide, by decide⟩
  exact ⟨c, jobs_handed_out_once (by decide) hwithin (runs_of_restricted (inOrder_runs hplay)),
    h₀, h₁⟩

end Jobs

/-! ### Batches -/

namespace Batches
open BatchClaims BatchChanges

/-- The batch that the operation hands out. -/
def handedOut : (op : StoreOp) → op.Result → Option InvoiceBatch
  | .trials (.claimDueBatch _), batch => batch
  | _, _ => none

def transaction (op : StoreOp) : Txn (Option InvoiceBatch) := do
  let r ← op.txn
  pure (handedOut op r)

/-- Claims look for batches until the instant and lease them for longer, and no batch is
settled meanwhile. -/
def Within (horizon : ℤ) : StoreOp → Prop
  | .trials (.claimDueBatch claim) => claim.now ≤ horizon ∧ horizon < claim.leaseUntil
  | .invoices (.settle _ _) => False
  | _ => True

/-- No claim until the instant finds the batch unfinished and free. -/
def taken (horizon : ℤ) : (u : Table) → Row u → Prop
  | .invoiceBatches, b => claimable ⟨horizon, horizon, 0⟩ b = false
  | _, _ => True

def batchClaim (claim : BatchClaim) : Claim Row invoiceBatches where
  due := due claim
  before := fun a b : InvoiceBatchRow => a.scheduledAt ≤ b.scheduledAt
  take := leased claim

def role : StoreOp → Role Row invoiceBatches StoreError InvoiceBatch
  | .trials (.claimDueBatch claim) => .claims (batchClaim claim) (degradeExhaustedBatches claim)
      fun row : InvoiceBatchRow =>
        { id := row.id, runId := row.runId, slotIndex := row.slotIndex
          scheduledAt := row.scheduledAt, targetCount := row.targetCount, status := .issuing
          leaseUntil := claim.leaseUntil, attempts := row.attempts + 1 }
  | op => .other (op.txn >>= fun _ => pure ())

theorem role_txn (op : StoreOp) : (role op).txn metadata .integrityError = transaction op := by
  have hother : ∀ {A : Type} (p : Txn A), ((p >>= fun _ => pure ()) >>= fun _ =>
      pure (none : Option InvoiceBatch)) = p >>= fun _ => pure none := fun p => by simp
  cases op with
  | trials op =>
      cases op with
      | create uuid5 runId command => exact hother _
      | claimDueBatch claim =>
          refine congrArg (Program.call _) (funext fun row => ?_)
          cases row with
          | none =>
              change (degradeExhaustedBatches claim >>= fun _ => pure none) =
                (degradeExhaustedBatches claim >>= fun _ => pure none) >>= fun r => pure r
              rw [bind_pure]
          | some row =>
              refine congrArg (Program.call _) (funext fun n => ?_)
              cases n <;> rfl
  | _ => exact hother _

theorem claimable_mono {claim : BatchClaim} {horizon : ℤ} (h : claim.now ≤ horizon)
    {b : InvoiceBatchRow} (hb : claimable claim b = true) :
    claimable ⟨horizon, horizon, 0⟩ b = true := by
  simp only [claimable, Bool.and_eq_true, decide_eq_true_eq] at hb ⊢
  obtain ⟨⟨hscheduled, hstatus⟩, hlease⟩ := hb
  refine ⟨⟨hscheduled.trans h, hstatus⟩, ?_⟩
  cases hb : b.leaseUntil with
  | none => rfl
  | some lease =>
      rw [hb, Option.all_some, decide_eq_true_eq] at hlease
      simpa using hlease.trans h

theorem batchClaim_exclusive {claim : BatchClaim} {horizon : ℤ}
    (h : Within horizon (.trials (.claimDueBatch claim))) :
    Exclusive metadata (taken horizon) (batchClaim claim) where
  due r hdue htaken := by
    obtain ⟨hclaimable, -⟩ := Bool.and_eq_true_iff.mp hdue
    rw [taken, claimable_mono h.1 hclaimable] at htaken
    cases htaken
  take r a := by
    obtain ⟨-, hlease⟩ := h
    have hnot : ¬ claim.leaseUntil ≤ horizon := by omega
    simp [taken, batchClaim, leased, claimable, hnot]
  key _ _ := rfl
  clash _ _ _ := rfl
  check _ _ := rfl

/-- A degraded batch is due for nobody. -/
theorem degrade_spares (claim : BatchClaim) {horizon : ℤ} :
    (degradeExhaustedBatches claim).Issues fun st =>
      Harmless metadata (taken horizon) invoiceBatches st ∧
        ∀ c : Claim Row invoiceBatches, st ≠ c.lock := by
  simp only [degradeExhaustedBatches, issues_updateRows_bind, Program.issues_ite, select_bind,
    Program.issues_call]
  refine ⟨⟨fun _ b => ⟨rfl, fun _ => ?_⟩, by simp⟩, fun n => ⟨fun _ => trivial, fun _ =>
    ⟨⟨trivial, by simp⟩, fun degraded => ?_⟩⟩⟩
  · simp [taken, claimable]
  · refine .forEach fun runId _ => ?_
    simp only [issues_updateRows_bind]
    exact ⟨⟨fun hne => (by cases hne), by simp⟩, fun _ => trivial⟩

theorem role_safe {op : StoreOp} {horizon : ℤ} (h : Within horizon op) :
    (role op).Safe metadata (taken horizon) := by
  have hother : ∀ op : StoreOp, invoiceBatches ∉ op.tables →
      (op.txn >>= fun _ => pure ()).Issues
        (Harmless metadata (taken horizon) invoiceBatches) :=
    fun op ht => harmless_discard (harmless_of_writes op.writes ht)
  cases op with
  | events op =>
      refine hother (.events op) ?_
      cases op <;> simp [StoreOp.tables, EventStoreOp.tables]
  | transfers op =>
      refine hother (.transfers op) ?_
      cases op <;> simp [StoreOp.tables, TransferStoreOp.tables]
  | invoices op =>
      cases op with
      | settle batchId now => exact h.elim
      | _ => exact hother (.invoices _) (by simp [StoreOp.tables, InvoiceStoreOp.tables])
  | trials op =>
      cases op with
      | claimDueBatch claim => exact ⟨batchClaim_exclusive h, degrade_spares claim⟩
      | create uuid5 runId command =>
          refine harmless_discard ?_
          simp [StoreOp.txn, TrialStoreOp.txn, create, Harmless]

theorem role_returns {op : StoreOp} {row : InvoiceBatchRow} {batch : InvoiceBatch}
    (h : (role op).Returns row batch) : batch.id = row.id := by
  cases op with
  | trials op =>
      cases op with
      | claimDueBatch claim => exact h ▸ rfl
      | create uuid5 runId command => exact h.elim
  | _ => exact h.elim

variable {ι : Type} [DecidableEq ι]

/-- What claims have done by some moment. -/
structure HandedOutOnce (horizon : ℤ)
    (c : Config ι (SessionOp Row) SessionOp.Answer StoreError (Option InvoiceBatch)
      (Versions ι Row)) : Prop where
  apart : ∀ i j, i ≠ j → ∀ batch batch', returned c i = some (some batch) →
    returned c j = some (some batch') → batch.id ≠ batch'.id
  leased : ∀ i batch, returned c i = some (some batch) →
    ∃ b ∈ committedRows c.state invoiceBatches,
      b.id = batch.id ∧ claimable ⟨horizon, horizon, 0⟩ b = false

/-- Until the leases run out and a batch is settled, every batch is handed out at most once. -/
theorem batches_handed_out_once {ops : ι → StoreOp} {horizon : ℤ} {db : Database Row}
    (hdb : metadata.Consistent db) (hwithin : ∀ i, Within horizon (ops i))
    {c : Config ι (SessionOp Row) SessionOp.Answer StoreError (Option InvoiceBatch)
      (Versions ι Row)}
    (h : Runs (system metadata fun i => transaction (ops i)) (.initial (untouched db)) c) :
    HandedOutOnce horizon c := by
  have hsafe : ∀ i, (role (ops i)).Safe metadata (taken horizon) := fun i => role_safe (hwithin i)
  simp only [← role_txn] at h
  refine ⟨fun i j hij batch batch' hi hj => ?_, fun i batch hi => ?_⟩
  · obtain ⟨row, row', hrow, hrow', hkey⟩ := claims_apart hdb hsafe h hij hi hj
    rw [role_returns hrow, role_returns hrow']
    exact hkey
  · obtain ⟨row, hrow, q, hq, hkey, htaken⟩ := claims_taken hdb hsafe h hi
    exact ⟨q, hq, hkey.trans (role_returns hrow).symm, htaken⟩

def oneDue : Database Row
  | .invoiceBatches => [batchRow (fun name => name) "r" 0 ⟨0, 0, 8⟩]
  | _ => []

/-- The second tick finds no batch, and nothing to degrade. -/
theorem batches_handed_out_once_twoTicks : ∃ c : Config (Fin 2) (SessionOp Row) SessionOp.Answer
    StoreError (Option InvoiceBatch) (Versions (Fin 2) Row),
    HandedOutOnce 15 c ∧ (returned c 0).map (Option.map InvoiceBatch.attempts) = some (some 1) ∧
      returned c 1 = some none := by
  have hends : (playAll (performIf metadata fun _ _ _ _ => True) (.initial (untouched oneDue))
      (inOrder (fun _ : Fin 2 => transaction (.trials (.claimDueBatch ⟨10, 20, 15⟩)))
        [0, 1, 0, 1, 0, 1])).map
        (fun c => ((returned c 0).map (Option.map InvoiceBatch.attempts), returned c 1)) =
      some (some (some 1), some none) := by
    decide +kernel
  obtain ⟨c, hplay, hc⟩ := Option.map_eq_some_iff.mp hends
  obtain ⟨h₀, h₁⟩ := Prod.mk.inj hc
  have hwithin : Within 15 (.trials (.claimDueBatch ⟨10, 20, 15⟩)) := ⟨by decide, by decide⟩
  exact ⟨c, batches_handed_out_once (by decide) (fun _ => hwithin)
    (runs_of_restricted (inOrder_runs hplay)), h₀, h₁⟩

end Batches
end StarkbankTrial.ConcurrentClaims
