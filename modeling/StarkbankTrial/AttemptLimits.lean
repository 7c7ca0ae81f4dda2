import StarkbankTrial.JobLeases

/-!
# The attempts of transfer jobs

One worker calls `process_one` again and again, and events are recorded in between. In one
call the provider answers at most once to each of its two methods, so that the two answers
and the two clock readings are all that a call depends on besides the database.
-/
namespace StarkbankTrial.AttemptLimits
open Domain InteractivePrograms RelationalTables Transaction DatabaseSchema
open DatabaseSchema.Table
open EventRecording TransferClaims StoreOperations JobChanges JobLeases ExternalCalls
open TransferWorker ScriptedRuns
open Program hiding atomically

/-! ### One call -/

/-- The times that are read, and what `ensure_transfer` and `find_transfer` return or raise
if they are called. -/
structure Turn where
  claimedAt : ℤ
  finishedAt : ℤ
  ensured : Except ProviderError ProviderTransfer
  found : Except ProviderError (Option ProviderTransfer)

def Turn.provider (t : Turn) : TransferProvider where
  ensureTransfer _ := .done t.ensured
  findTransfer _ := .done t.found

/-- The database and the readings of the clock that are left. -/
structure WorkerState where
  db : Database Row
  clock : List ℤ

/-- The answers to a worker whose provider is a value. -/
def answerCall : (call : Call) → WorkerState → call.Answer × WorkerState
  | .now, s => (s.clock.headD 0, { s with clock := s.clock.tail })
  | .store op, s => ((op.apply s.db).1, { s with db := (op.apply s.db).2 })
  | .invoiceCreate _, s => ([], s)
  | .invoiceQuery _ _, s => ([], s)
  | .transferCreate _, s => ([], s)
  | .transferQuery _ _, s => ([], s)

variable (cfg : WorkerSettings)

/-- How the call ends, and the database after it. -/
def processed (t : Turn) (db : Database Row) : Except Failure WorkerResult × Database Row :=
  let r := (processOne cfg t.provider).run answerCall ⟨db, [t.claimedAt, t.finishedAt]⟩
  (r.1, r.2.db)

/-- The job that the call claims. -/
def claimedBy (t : Turn) (db : Database Row) : Option TransferJob :=
  if cfg.liveOperationsEnabled then
    ((StoreOp.transfers (.claim ⟨t.claimedAt, t.claimedAt + seconds cfg.leaseSeconds⟩)).apply
      db).1.toOption.join
  else none

/-- The last attempt got a timeout or a transient error, and the transfer is looked up once
more. -/
def FinalLookup (t : Turn) (job : TransferJob) : Prop :=
  job.claimedFrom ≠ some .unknown ∧ cfg.transferMaxAttempts ≤ job.attempts ∧
    ∃ e, t.ensured = .error e ∧ e.kind.isTransient = true

/-- The transfer that the provider returned for the job. -/
def Answered (t : Turn) (job : TransferJob) (transfer : ProviderTransfer) : Prop :=
  (job.claimedFrom ≠ some .unknown ∧ t.ensured = .ok transfer) ∨
    ((job.claimedFrom = some .unknown ∨ FinalLookup cfg t job) ∧ t.found = .ok (some transfer))

/-- A final lookup raises no permanent error, and a transfer that is returned is not recorded
with another job. -/
structure Settling (t : Turn) (db : Database Row) : Prop where
  lookup : ∀ job, claimedBy cfg t db = some job → FinalLookup cfg t job →
    ∀ e, t.found = .error e → e.kind.isTransient = true
  transfer : ∀ job, claimedBy cfg t db = some job → ∀ transfer, Answered cfg t job transfer →
    ∀ j ∈ db transferJobs, j.id ≠ job.id → j.providerTransferId ≠ some transfer.id

/-! ### Many calls -/

inductive Action where
  | work (t : Turn)
  | record (op : EventStoreOp)

/-- The database, the ids of the claimed jobs and the ends of all calls, latest first. -/
structure Worked where
  db : Database Row
  claimed : List TransferJobId
  ends : List (Except Failure WorkerResult)

def Worked.step (h : Worked) : Action → Worked
  | .work t =>
      { db := (processed cfg t h.db).2
        claimed := ((claimedBy cfg t h.db).map TransferJob.id).toList ++ h.claimed
        ends := (processed cfg t h.db).1 :: h.ends }
  | .record op => { h with db := ((StoreOp.events op).apply h.db).2 }

def Worked.steps (h : Worked) (actions : List Action) : Worked := actions.foldl (Worked.step cfg) h

/-- Every call meets its condition when its turn comes. -/
def AllSettling : Worked → List Action → Prop
  | _, [] => True
  | h, .work t :: actions => Settling cfg t h.db ∧ AllSettling (h.step cfg (.work t)) actions
  | h, .record op :: actions => AllSettling (h.step cfg (.record op)) actions

/-- A job that is at its end. -/
def Over (j : TransferJobRow) : Prop := j.status = .succeeded ∨ j.status = .permanentFailure

/-- No call raised, no job is left in processing, no job is claimed more often than allowed,
and one that was claimed as often as allowed is over. -/
structure Limited (h : Worked) : Prop where
  returned : ∀ r ∈ h.ends, ∃ result, r = .ok result
  idle : ∀ j ∈ h.db transferJobs, j.status ≠ .processing
  attempts : ∀ j ∈ h.db transferJobs, j.attempts ≤ cfg.transferMaxAttempts
  claims : ∀ id, h.claimed.count id ≤ cfg.transferMaxAttempts
  last : ∀ j ∈ h.db transferJobs, h.claimed.count j.id = cfg.transferMaxAttempts → Over j

/-- No job was ever claimed. -/
structure Unworked (db : Database Row) : Prop where
  consistent : metadata.Consistent db
  jobs : ∀ j ∈ db transferJobs, j.status = .pending ∧ j.attempts = 0

/-! ### How a claimed job is finished -/

variable {cfg} {t : Turn} {job : TransferJob} {time : ℤ} {s : WorkerState}

/-- The finishes that a call can make. -/
inductive Finishes (cfg : WorkerSettings) (t : Turn) (job : TransferJob) : JobFinish → Prop
  | succeeded {transfer : ProviderTransfer} (time : ℤ) : Answered cfg t job transfer →
      Finishes cfg t job (.succeeded transfer time)
  | failed (code : String) (time : ℤ) : Finishes cfg t job (.failed code time)
  | retry (code : String) (time delay : ℤ) : job.attempts < cfg.transferMaxAttempts →
      Finishes cfg t job (.retry code time delay)
  | unknown (code : String) (time delay : ℤ) : job.attempts < cfg.transferMaxAttempts →
      Finishes cfg t job (.unknown code time delay)

/-- The call returned after a finish. -/
def Finished (cfg : WorkerSettings) (t : Turn) (job : TransferJob) (s : WorkerState)
    (r : Except Failure WorkerResult × WorkerState) : Prop :=
  ∃ f, Finishes cfg t job f ∧ (∃ result, r.1 = .ok result) ∧
    r.2.db = s.db.set transferJobs (assignWhere (heldBy job) f.apply (s.db transferJobs))

theorem callStore_run (op : StoreOp) (s : WorkerState) :
    (callStore op).run answerCall s =
      (match (op.apply s.db).1 with
        | .ok r => .ok r
        | .error e => .error (.store e), { s with db := (op.apply s.db).2 }) := by
  unfold callStore
  rw [run_call]
  simp only [answerCall]
  cases (op.apply s.db).1 <;> rfl

/-- A transaction that returns, and whose result is dropped. -/
theorem dropped_run {op : StoreOp} {v : op.Result} {db' : Database Row}
    (h : op.apply s.db = (.ok v, db')) (result : WorkerResult) :
    (callStore op >>= fun _ => pure result).run answerCall s = (.ok result, { s with db := db' }) := by
  rw [run_bind, callStore_run, h]
  rfl

/-- A finish that cannot break a constraint. -/
theorem finish_ok {op : TransferStoreOp} {f : JobFinish} (hop : finishOf op = some (job, f))
    {db : Database Row}
    (hvalid : metadata.Valid transferJobs (assignWhere (heldBy job) f.apply (db transferJobs))) :
    ∃ v, (StoreOp.transfers op).apply db =
      (.ok v, db.set transferJobs (assignWhere (heldBy job) f.apply (db transferJobs))) := by
  have happly := finish_apply job f db
  rw [if_pos hvalid] at happly
  cases op with
  | claim c => simp [finishOf] at hop
  | syncCandidates limit => simp [finishOf] at hop
  | refreshProviderStatus jobId transfer now => simp [finishOf] at hop
  | _ =>
      obtain ⟨rfl, rfl⟩ := Prod.mk.inj (Option.some.inj hop)
      exact ⟨_, happly⟩

theorem finishing_run (op : TransferStoreOp) {f : JobFinish} (hop : finishOf op = some (job, f))
    (hvalid : metadata.Valid transferJobs (assignWhere (heldBy job) f.apply (s.db transferJobs)))
    (hf : Finishes cfg t job f) (result : WorkerResult) :
    Finished cfg t job s ((callStore (.transfers op) >>= fun _ => pure result).run answerCall s) := by
  obtain ⟨v, happly⟩ := finish_ok hop hvalid
  refine ⟨f, hf, ?_⟩
  rw [dropped_run happly]
  exact ⟨⟨result, rfl⟩, rfl⟩

/-- The finishes keep the constraints. -/
def Accepts (cfg : WorkerSettings) (t : Turn) (job : TransferJob) (s : WorkerState) : Prop :=
  ∀ f, Finishes cfg t job f →
    metadata.Valid transferJobs (assignWhere (heldBy job) f.apply (s.db transferJobs))

theorem finishSucceeded_run (haccepts : Accepts cfg t job s) {transfer : ProviderTransfer}
    (hanswered : Answered cfg t job transfer) (time : ℤ) :
    Finished cfg t job s ((finishSucceeded job transfer time).run answerCall s) :=
  finishing_run (.succeeded job transfer time) rfl (haccepts _ (.succeeded time hanswered))
    (.succeeded time hanswered) .succeeded

theorem finishFailed_run (haccepts : Accepts cfg t job s) (code : String) (time : ℤ) :
    Finished cfg t job s ((finishFailed job code time).run answerCall s) :=
  finishing_run (.failed job code time) rfl (haccepts _ (.failed code time))
    (.failed code time) .permanentFailure

theorem scheduleRetry_run (haccepts : Accepts cfg t job s)
    (hleft : job.attempts < cfg.transferMaxAttempts) (code : String) (time : ℤ) :
    Finished cfg t job s ((scheduleRetry cfg job code time).run answerCall s) :=
  finishing_run (.retry job code time (backoff cfg job)) rfl
    (haccepts _ (.retry code time _ hleft)) (.retry code time _ hleft) .retryScheduled

theorem scheduleReconciliation_run (haccepts : Accepts cfg t job s)
    (hleft : job.attempts < cfg.transferMaxAttempts) (code : String) (time : ℤ) :
    Finished cfg t job s ((scheduleReconciliation cfg job code time).run answerCall s) :=
  finishing_run (.unknown job code time (backoff cfg job)) rfl
    (haccepts _ (.unknown code time _ hleft)) (.unknown code time _ hleft)
    .reconciliationScheduled

/-! ### The branches of a call -/

theorem provider_findTransfer (command : TransferCommand) :
    t.provider.findTransfer command = .done t.found := rfl

theorem provider_ensureTransfer (command : TransferCommand) :
    t.provider.ensureTransfer command = .done t.ensured := rfl

theorem finalizeAfterLookup_run (haccepts : Accepts cfg t job s) (hfinal : FinalLookup cfg t job)
    (hlookup : ∀ e, t.found = .error e → e.kind.isTransient = true) (command : TransferCommand)
    (time : ℤ) :
    Finished cfg t job s ((finalizeAfterLookup t.provider job command time).run answerCall s) := by
  simp only [finalizeAfterLookup, provider_findTransfer, done_bind]
  cases hfound : t.found with
  | ok transfer =>
      cases transfer with
      | some transfer => exact finishSucceeded_run haccepts (.inr ⟨.inr hfinal, hfound⟩) time
      | none => exact finishFailed_run haccepts _ time
  | error e =>
      simp only [hlookup e hfound, if_true]
      exact finishFailed_run haccepts _ time

theorem reconcileUnknown_run (haccepts : Accepts cfg t job s)
    (hunknown : job.claimedFrom = some .unknown) (command : TransferCommand) (time : ℤ) :
    Finished cfg t job s ((reconcileUnknown cfg t.provider job command time).run answerCall s) := by
  simp only [reconcileUnknown, provider_findTransfer, done_bind]
  cases hfound : t.found with
  | ok transfer =>
      cases transfer with
      | some transfer => exact finishSucceeded_run haccepts (.inr ⟨.inl hunknown, hfound⟩) time
      | none =>
          simp only
          split_ifs with hlast
          · exact finishFailed_run haccepts _ time
          · exact scheduleRetry_run haccepts (not_le.mp hlast) _ time
  | error e =>
      simp only
      split_ifs with htransient hlast
      · exact finishFailed_run haccepts _ time
      · exact scheduleReconciliation_run haccepts (not_le.mp hlast) _ time
      · exact finishFailed_run haccepts _ time

theorem processClaimed_run (haccepts : Accepts cfg t job s)
    (hlookup : FinalLookup cfg t job → ∀ e, t.found = .error e → e.kind.isTransient = true)
    (time : ℤ) :
    Finished cfg t job s ((processClaimed cfg t.provider job time).run answerCall s) := by
  unfold processClaimed
  simp only
  split_ifs with hunknown
  · exact reconcileUnknown_run haccepts hunknown _ time
  · simp only [provider_ensureTransfer, done_bind]
    cases hensured : t.ensured with
    | ok transfer => exact finishSucceeded_run haccepts (.inl ⟨hunknown, hensured⟩) time
    | error e =>
        have hfinal : e.kind.isTransient = true → cfg.transferMaxAttempts ≤ job.attempts →
            FinalLookup cfg t job := fun htransient hlast => ⟨hunknown, hlast, e, hensured, htransient⟩
        have htimeout : e.kind.isTimeout = true → e.kind.isTransient = true := by
          cases e.kind <;> simp [ProviderErrorKind.isTimeout, ProviderErrorKind.isTransient]
        simp only [handleTimeout, handleTransient, handlePermanent]
        split_ifs with ht hlast htransient hlast
        · have hfinal := hfinal (htimeout ht) hlast
          exact finalizeAfterLookup_run haccepts hfinal (hlookup hfinal) _ time
        · exact scheduleReconciliation_run haccepts (not_le.mp hlast) _ time
        · have hfinal := hfinal htransient hlast
          exact finalizeAfterLookup_run haccepts hfinal (hlookup hfinal) _ time
        · exact scheduleRetry_run haccepts (not_le.mp hlast) _ time
        · exact finishFailed_run haccepts _ time

/-! ### One call on the rows -/

/-- The rows after a claimed job was finished. -/
def workedRows (c : JobClaim) (row : TransferJobRow) (f : JobFinish) (jobs : List TransferJobRow) :
    List TransferJobRow :=
  assignWhere (fun j : TransferJobRow => j.id == row.id) (fun j => f.apply (claimed c row j)) jobs

/-- The claim and the finish write the same row. -/
theorem workedRows_eq (c : JobClaim) (row : TransferJobRow) (f : JobFinish)
    (jobs : List TransferJobRow) :
    assignWhere (heldBy (toJob row (row.attempts + 1) c.leaseUntil)) f.apply
        (assignWhere (fun j : TransferJobRow => j.id == row.id) (claimed c row) jobs) =
      workedRows c row f jobs := by
  unfold workedRows assignWhere
  rw [List.map_map]
  refine List.map_congr_left fun j _ => ?_
  by_cases hid : j.id = row.id
  · have hheld : heldBy (toJob row (row.attempts + 1) c.leaseUntil) (claimed c row j) = true := by
      simp [heldBy, toJob, claimed, hid]
    simp [hid, hheld]
  · have hheld : heldBy (toJob row (row.attempts + 1) c.leaseUntil) j = false := by
      simp [heldBy, toJob, hid]
    simp [hid, hheld]

/-- A finish of a claimed row that shares its transfer with no other row. -/
theorem workedRows_valid {db : Database Row} (hc : metadata.Consistent db) (c : JobClaim)
    {row : TransferJobRow} {f : JobFinish}
    (hfree : ∀ transferId, f.providerTransferId = some transferId →
      ∀ j ∈ db transferJobs, j.id ≠ row.id → j.providerTransferId ≠ some transferId) :
    metadata.Valid transferJobs (workedRows c row f (db transferJobs)) := by
  refine (hc transferJobs).assignWhere (fun j hj _ => ?_) (fun a ha b hb hca hab hcb => ?_)
    fun a ha b hb hca hcb hab => ?_
  · exact (hc transferJobs).1 j hj
  · have hne : b.id ≠ row.id := by simpa using hcb
    have hshared : sameNonNull f.providerTransferId b.providerTransferId = false := by
      rw [Bool.eq_false_iff, ne_eq, sameNonNull_iff]
      rintro ⟨transferId, hf, hb'⟩
      exact hfree transferId hf b hb hne hb'
    simp only [metadata, uniqueConflict, Bool.or_eq_false_iff] at hab ⊢
    exact ⟨hab.1, hshared⟩
  · have hsame : a.id = b.id := (beq_iff_eq.mp hca).trans (beq_iff_eq.mp hcb).symm
    simp [metadata, uniqueConflict, hsame] at hab

/-- What a call does: nothing, or it claims a row and finishes it. -/
inductive Did (cfg : WorkerSettings) (t : Turn) (db : Database Row) :
    Option TransferJob → Except Failure WorkerResult × Database Row → Prop
  | nothing (result : WorkerResult) : Did cfg t db none (.ok result, db)
  | worked {c : JobClaim} {row : TransferJobRow} {f : JobFinish} {result : WorkerResult} :
      row ∈ db transferJobs → claimable c row = true →
      Finishes cfg t (toJob row (row.attempts + 1) c.leaseUntil) f →
      metadata.Valid transferJobs (workedRows c row f (db transferJobs)) →
      Did cfg t db (some (toJob row (row.attempts + 1) c.leaseUntil))
        (.ok result, db.set transferJobs (workedRows c row f (db transferJobs)))

theorem processed_did {db : Database Row} (hc : metadata.Consistent db)
    (hsettling : Settling cfg t db) : Did cfg t db (claimedBy cfg t db) (processed cfg t db) := by
  cases hlive : cfg.liveOperationsEnabled with
  | false =>
      have hclaimed : claimedBy cfg t db = none := by simp [claimedBy, hlive]
      have hprocessed : processed cfg t db = (.ok .liveDisabled, db) := by
        simp [processed, processOne, hlive]
      rw [hclaimed, hprocessed]
      exact .nothing .liveDisabled
  | true =>
      let c : JobClaim := ⟨t.claimedAt, t.claimedAt + seconds cfg.leaseSeconds⟩
      have hclaimedBy : claimedBy cfg t db =
          ((StoreOp.transfers (.claim c)).apply db).1.toOption.join := by simp [claimedBy, hlive, c]
      have hclaim : (claimJob cfg).run answerCall ⟨db, [t.claimedAt, t.finishedAt]⟩ =
          (callStore (.transfers (.claim c))).run answerCall ⟨db, [t.finishedAt]⟩ := rfl
      rw [callStore_run] at hclaim
      rcases claim_apply hc c with ⟨-, happly⟩ | ⟨row, hrow, hclaimable, happly⟩
      · rw [happly] at hclaim
        have hprocessed : processed cfg t db = (.ok .idle, db) := by
          unfold processed processOne
          rw [if_pos hlive, run_bind, hclaim]
          rfl
        rw [hclaimedBy, happly, hprocessed]
        exact .nothing .idle
      · rw [happly] at hclaim hclaimedBy
        have hclaimedBy : claimedBy cfg t db =
            some (toJob row (row.attempts + 1) c.leaseUntil) := hclaimedBy
        have hprocessed : processed cfg t db =
            let r := (processClaimed cfg t.provider (toJob row (row.attempts + 1) c.leaseUntil)
              t.finishedAt).run answerCall ⟨db.set transferJobs (assignWhere
                (fun j : TransferJobRow => j.id == row.id) (claimed c row) (db transferJobs)), []⟩
            (r.1, r.2.db) := by
          unfold processed processOne
          rw [if_pos hlive, run_bind, hclaim]
          rfl
        have hrows : ∀ f : JobFinish, assignWhere
            (heldBy (toJob row (row.attempts + 1) c.leaseUntil)) f.apply
              ((db.set transferJobs (assignWhere (fun j : TransferJobRow => j.id == row.id)
                (claimed c row) (db transferJobs))) transferJobs) =
            workedRows c row f (db transferJobs) := by
          intro f
          rw [Database.set_self]
          exact workedRows_eq c row f _
        have haccepts : Accepts cfg t (toJob row (row.attempts + 1) c.leaseUntil)
            ⟨db.set transferJobs (assignWhere (fun j : TransferJobRow => j.id == row.id)
              (claimed c row) (db transferJobs)), []⟩ := by
          intro f hf
          rw [hrows f]
          refine workedRows_valid hc c fun transferId hid j hj hne => ?_
          cases hf with
          | @succeeded transfer _ hanswered =>
              obtain rfl := Option.some.inj hid
              exact hsettling.transfer _ hclaimedBy transfer hanswered j hj hne
          | _ => simp [JobFinish.failed, JobFinish.retry, JobFinish.unknown] at hid
        obtain ⟨f, hf, ⟨result, hresult⟩, hdb⟩ := processClaimed_run haccepts
          (hsettling.lookup _ hclaimedBy) t.finishedAt
        rw [hclaimedBy, hprocessed]
        simp only
        rw [hresult, hdb, hrows f, Database.set_set]
        exact .worked hrow hclaimable hf (hrows f ▸ haccepts f hf)

/-! ### The invariant -/

/-- Every job was claimed as often as its attempts say, and only a job that is over has no
attempts left. -/
structure Counted (cfg : WorkerSettings) (claimed : List TransferJobId)
    (jobs : List TransferJobRow) : Prop where
  stored : ∀ id ∈ claimed, ∃ j ∈ jobs, j.id = id
  counted : ∀ j ∈ jobs, claimed.count j.id = j.attempts
  idle : ∀ j ∈ jobs, j.status ≠ .processing
  attempts : ∀ j ∈ jobs, j.attempts ≤ cfg.transferMaxAttempts
  last : ∀ j ∈ jobs, j.attempts = cfg.transferMaxAttempts → Over j

structure Inv (cfg : WorkerSettings) (h : Worked) : Prop where
  consistent : metadata.Consistent h.db
  returned : ∀ r ∈ h.ends, ∃ result, r = .ok result
  jobs : Counted cfg h.claimed (h.db transferJobs)

variable {h : Worked}

theorem Inv.limited (hinv : Inv cfg h) : Limited cfg h where
  returned := hinv.returned
  idle := hinv.jobs.idle
  attempts := hinv.jobs.attempts
  claims id := by
    by_cases hid : id ∈ h.claimed
    · obtain ⟨j, hj, rfl⟩ := hinv.jobs.stored id hid
      exact hinv.jobs.counted j hj ▸ hinv.jobs.attempts j hj
    · rw [List.count_eq_zero_of_not_mem hid]
      exact Nat.zero_le _
  last j hj hcount := hinv.jobs.last j hj (hinv.jobs.counted j hj ▸ hcount)

theorem Unworked.inv {db : Database Row} (h : Unworked db) (hmax : 1 ≤ cfg.transferMaxAttempts) :
    Inv cfg ⟨db, [], []⟩ where
  consistent := h.consistent
  returned := by simp
  jobs := by
    constructor
    · simp
    · intro j hj
      simp [(h.jobs j hj).2]
    · intro j hj
      simp [(h.jobs j hj).1]
    · intro j hj
      simp [(h.jobs j hj).2]
    · intro j hj hattempts
      have hzero := (h.jobs j hj).2
      omega

variable {ids : List TransferJobId} {jobs : List TransferJobRow}

/-- A row that may be claimed has attempts left. -/
theorem Counted.left (hcounted : Counted cfg ids jobs) {c : JobClaim} {row : TransferJobRow}
    (hrow : row ∈ jobs) (hclaimable : claimable c row = true) :
    row.attempts < cfg.transferMaxAttempts := by
  have hle := hcounted.attempts row hrow
  by_contra hnot
  rcases hcounted.last row hrow (by omega) with hover | hover
  · simp [claimable, hover] at hclaimable
  · simp [claimable, hover] at hclaimable

/-- A finish ends the processing, and the last one ends the job. -/
theorem Finishes.status {f : JobFinish} (hf : Finishes cfg t job f) (j : TransferJobRow) :
    (f.apply j).status ≠ .processing ∧
      (job.attempts = cfg.transferMaxAttempts → Over (f.apply j)) := by
  cases hf with
  | succeeded => exact ⟨by simp [JobFinish.apply, JobFinish.succeeded], fun _ => .inl rfl⟩
  | failed => exact ⟨by simp [JobFinish.apply, JobFinish.failed], fun _ => .inr rfl⟩
  | retry _ _ _ hleft =>
      exact ⟨by simp [JobFinish.apply, JobFinish.retry], fun hlast => absurd hlast (ne_of_lt hleft)⟩
  | unknown _ _ _ hleft =>
      exact ⟨by simp [JobFinish.apply, JobFinish.unknown],
        fun hlast => absurd hlast (ne_of_lt hleft)⟩

theorem Counted.worked (hcounted : Counted cfg ids jobs) (hkeys : ∀ j ∈ jobs, ∀ j' ∈ jobs,
    j.id = j'.id → j = j') {c : JobClaim} {row : TransferJobRow} {f : JobFinish}
    (hrow : row ∈ jobs) (hclaimable : claimable c row = true)
    (hf : Finishes cfg t (toJob row (row.attempts + 1) c.leaseUntil) f) :
    Counted cfg (row.id :: ids) (workedRows c row f jobs) := by
  have hleft := hcounted.left hrow hclaimable
  -- the row of the claim, and the others as they were
  have hmem : ∀ j ∈ workedRows c row f jobs,
      j = f.apply (claimed c row row) ∨ j ∈ jobs ∧ j.id ≠ row.id := by
    intro j hj
    rcases mem_assignWhere.mp hj with ⟨a, ha, hid, rfl⟩ | ⟨hj, hid⟩
    · rw [hkeys a ha row hrow (beq_iff_eq.mp hid)]
      exact .inl rfl
    · exact .inr ⟨hj, by simpa using hid⟩
  have hself : f.apply (claimed c row row) ∈ workedRows c row f jobs :=
    mem_assignWhere.mpr (.inl ⟨row, hrow, beq_iff_eq.mpr rfl, rfl⟩)
  constructor
  · intro id hid
    rcases List.mem_cons.mp hid with rfl | hid
    · exact ⟨_, hself, rfl⟩
    · obtain ⟨j, hj, rfl⟩ := hcounted.stored id hid
      by_cases hsame : j.id = row.id
      · exact ⟨_, hself, hsame.symm⟩
      · exact ⟨j, mem_assignWhere.mpr (.inr ⟨hj, by simpa using hsame⟩), rfl⟩
  all_goals
    intro j hj
    rcases hmem j hj with rfl | ⟨hj, hne⟩
  · change (row.id :: ids).count row.id = row.attempts + 1
    rw [List.count_cons_self, hcounted.counted row hrow]
  · rw [List.count_cons_of_ne (Ne.symm hne), hcounted.counted j hj]
  · exact (hf.status _).1
  · exact hcounted.idle j hj
  · exact hleft
  · exact hcounted.attempts j hj
  · exact (hf.status _).2
  · exact hcounted.last j hj

theorem Inv.work (hinv : Inv cfg h) (hsettling : Settling cfg t h.db) :
    Inv cfg (h.step cfg (.work t)) := by
  have hdid := processed_did hinv.consistent hsettling
  have hstep : h.step cfg (.work t) = ⟨(processed cfg t h.db).2,
      ((claimedBy cfg t h.db).map TransferJob.id).toList ++ h.claimed,
      (processed cfg t h.db).1 :: h.ends⟩ := rfl
  rw [hstep]
  have hreturned : ∀ result : WorkerResult,
      ∀ r ∈ (.ok result :: h.ends : List (Except Failure WorkerResult)), ∃ v, r = .ok v := by
    intro result r hr
    rcases List.mem_cons.mp hr with rfl | hr
    · exact ⟨result, rfl⟩
    · exact hinv.returned r hr
  generalize claimedBy cfg t h.db = claimedJob at hdid ⊢
  generalize processed cfg t h.db = r at hdid ⊢
  cases hdid with
  | nothing result => exact ⟨hinv.consistent, hreturned result, hinv.jobs⟩
  | @worked c row f result hrow hclaimable hf hvalid =>
      refine ⟨hinv.consistent.set hvalid, hreturned result, ?_⟩
      change Counted cfg (row.id :: h.claimed)
        (h.db.set transferJobs (workedRows c row f (h.db transferJobs)) transferJobs)
      rw [Database.set_self]
      exact hinv.jobs.worked (fun j hj j' hj' => (hinv.consistent transferJobs).eq_of_key hj hj')
        hrow hclaimable hf

/-- A new job has all its attempts, and nothing that is recorded takes one. -/
theorem Counted.recorded (hcounted : Counted cfg ids jobs) (hmax : 1 ≤ cfg.transferMaxAttempts)
    {jobId : TransferJobId} {r : EventRecord} {jobs' : List TransferJobRow}
    (hnew : jobs'.Pairwise fun a b => a.id ≠ b.id) (hjobs : JobsRecorded jobId r jobs jobs') :
    Counted cfg ids jobs' := by
  cases hjobs with
  | same => exact hcounted
  | @queued event net _ _ =>
      have hfree : ∀ j ∈ jobs, j.id ≠ jobId := fun j hj =>
        (List.pairwise_append.mp hnew).2.2 j hj _ (List.mem_singleton.mpr rfl)
      have hnone : ids.count jobId = 0 := by
        refine List.count_eq_zero_of_not_mem fun hid => ?_
        obtain ⟨j, hj, hsame⟩ := hcounted.stored jobId hid
        exact hfree j hj hsame
      constructor
      · intro id hid
        obtain ⟨j, hj, hsame⟩ := hcounted.stored id hid
        exact ⟨j, List.mem_append_left _ hj, hsame⟩
      all_goals
        intro j hj
        rcases List.mem_append.mp hj with hj | hj
      · exact hcounted.counted j hj
      · obtain rfl := List.mem_singleton.mp hj
        exact hnone
      · exact hcounted.idle j hj
      · obtain rfl := List.mem_singleton.mp hj
        simp [newJob]
      · exact hcounted.attempts j hj
      · obtain rfl := List.mem_singleton.mp hj
        exact Nat.zero_le _
      · exact hcounted.last j hj
      · obtain rfl := List.mem_singleton.mp hj
        intro hzero
        change 0 = cfg.transferMaxAttempts at hzero
        omega
  | @updated event _ =>
      have hmem : ∀ j' ∈ assignWhere (fun j => j.externalId == event.externalId)
          (applyLifecycle r event) jobs, ∃ j ∈ jobs, j'.id = j.id ∧ j'.attempts = j.attempts ∧
            j'.status = j.status := by
        intro j' hj'
        rcases mem_assignWhere.mp hj' with ⟨j, hj, -, rfl⟩ | ⟨hj, -⟩
        · exact ⟨j, hj, rfl, rfl, rfl⟩
        · exact ⟨j', hj, rfl, rfl, rfl⟩
      constructor
      · intro id hid
        obtain ⟨j, hj, rfl⟩ := hcounted.stored id hid
        exact ⟨_, List.mem_map_of_mem hj, by split_ifs <;> rfl⟩
      all_goals
        intro j' hj'
        obtain ⟨j, hj, hid, hattempts, hstatus⟩ := hmem j' hj'
      · rw [hid, hattempts]
        exact hcounted.counted j hj
      · rw [hstatus]
        exact hcounted.idle j hj
      · rw [hattempts]
        exact hcounted.attempts j hj
      · rw [hattempts, Over, hstatus]
        exact hcounted.last j hj

/-- A recorded event starts no claim. -/
theorem Inv.record (hinv : Inv cfg h) (hmax : 1 ≤ cfg.transferMaxAttempts) (op : EventStoreOp) :
    Inv cfg (h.step cfg (.record op)) := by
  have hc : metadata.Consistent ((StoreOp.events op).apply h.db).2 :=
    StoreOp.apply_consistent hinv.consistent (.events op)
  refine ⟨hc, hinv.returned, ?_⟩
  change Counted cfg h.claimed (((StoreOp.events op).apply h.db).2 transferJobs)
  cases op with
  | recordIgnoredWorkspace r =>
      rw [recordIgnoredWorkspace_apply_jobs r h.db]
      exact hinv.jobs
  | record jobId r =>
      refine hinv.jobs.recorded hmax ((hc transferJobs).2.imp fun hconflict hid => ?_)
        (record_apply_jobs jobId r h.db)
      simp [metadata, uniqueConflict, hid] at hconflict

/-! ### Every run -/

variable (cfg)

theorem inv_steps (hmax : 1 ≤ cfg.transferMaxAttempts) (actions : List Action) (h : Worked)
    (hinv : Inv cfg h) (hall : AllSettling cfg h actions) : Inv cfg (h.steps cfg actions) := by
  induction actions generalizing h with
  | nil => exact hinv
  | cons action actions ih =>
      cases action with
      | work t => exact ih _ (hinv.work hall.1) hall.2
      | record op => exact ih _ (hinv.record hmax op) hall

/-- Whatever the provider answers and whatever is recorded, as long as no final lookup raises a
permanent error and no transfer is returned for two jobs. -/
theorem attempts_limited (hmax : 1 ≤ cfg.transferMaxAttempts) {db : Database Row}
    (hdb : Unworked db) {actions : List Action} (hall : AllSettling cfg ⟨db, [], []⟩ actions) :
    Limited cfg (Worked.steps cfg ⟨db, [], []⟩ actions) :=
  (inv_steps cfg hmax actions _ (hdb.inv hmax) hall).limited

/-! ### One job with one attempt -/

def credit : EventStoreOp :=
  .record "j"
    { event := .credited { eventId := "e", invoiceId := "i", amount := 5000, fee := 50
                           workspaceId := "w", tags := ["trial-smoke:d"] }
      payloadHash := "h", receivedAt := 0, netAmount := some 4950 }

def timeout : ProviderError := ⟨.timeout, "create_transfer"⟩

/-- The only attempt gets a timeout, and the transfer is looked up once more. -/
def lastAttempt (time : ℤ) (found : Except ProviderError (Option ProviderTransfer)) : Turn :=
  ⟨time, time + 1, .error timeout, found⟩

theorem creditDb_unworked : Unworked creditWorld.db :=
  ⟨by decide, by simp [creditWorld, Database.set, emptyDatabase]⟩

/-- The final lookup finds the transfer. -/
theorem attempts_limited_found :
    Limited { transferMaxAttempts := 1 } (Worked.steps { transferMaxAttempts := 1 }
      ⟨creditWorld.db, [], []⟩
      [.record credit,
        .work (lastAttempt 1 (.ok (some ⟨"t", "trial-transfer-i", "created"⟩)))]) := by
  refine attempts_limited _ (by decide) creditDb_unworked ⟨⟨fun _ _ _ _ h => ?_, ?_⟩, trivial⟩
  · simp [lastAttempt] at h
  · have hfree : ∀ j ∈ (Worked.step { transferMaxAttempts := 1 } ⟨creditWorld.db, [], []⟩
        (.record credit)).db transferJobs, j.providerTransferId = none := by decide
    intro _ _ transfer _ j hj _
    simp [hfree j hj]

/-- The final lookup raises a permanent error: the call raises, the job stays in processing,
and it is claimed once more when its lease has expired. -/
theorem attempts_exceeded : Unworked creditWorld.db ∧
    ¬ Limited { transferMaxAttempts := 1 } (Worked.steps { transferMaxAttempts := 1 }
      ⟨creditWorld.db, [], []⟩
      [.record credit, .work (lastAttempt 1 (.error ⟨.permanent, "find_transfer"⟩)),
        .work (lastAttempt (seconds 121) (.ok none))]) := by
  refine ⟨creditDb_unworked, fun hlimited => ?_⟩
  exact absurd (hlimited.claims "j") (by decide)

end StarkbankTrial.AttemptLimits
