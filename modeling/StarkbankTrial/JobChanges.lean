import StarkbankTrial.StoreOperations

/-!
# What transactions do to the transfer jobs

One statement for each operation that writes the job table. Later results about jobs
use these and never unfold a transaction again.
-/
namespace StarkbankTrial.JobChanges
open Domain InteractivePrograms RelationalTables Transaction DatabaseSchema
open DatabaseSchema.Table
open EventRecording TransferClaims StoreOperations
open Program hiding atomically

/-! ### Claims and finishes -/

def claimed (claim : JobClaim) (row j : TransferJobRow) : TransferJobRow :=
  { j with
    status := .processing
    attempts := row.attempts + 1
    leaseUntil := some claim.leaseUntil
    updatedAt := claim.now }

/-- An assignment that keeps the keys and amounts of every job cannot fail. -/
theorem jobs_valid {db : Database Row} (hc : metadata.Consistent db)
    {condition : TransferJobRow → Bool} {assign : TransferJobRow → TransferJobRow}
    (hsame : ∀ j, SameTransfer j (assign j))
    (hid : ∀ j, (assign j).providerTransferId = j.providerTransferId) :
    metadata.Valid transferJobs (assignWhere condition assign (db transferJobs)) := by
  refine (hc transferJobs).assignWhere (fun r hr _ => ?_) (fun a _ b _ _ hab _ => ?_)
    (fun a _ b _ _ _ hab => ?_)
  · have hcheck := (hc transferJobs).1 r hr
    simpa [metadata, rowCheck, (hsame r).amount, (hsame r).fee, (hsame r).netAmount]
      using hcheck
  · simpa [metadata, uniqueConflict, (hsame a).id, (hsame a).eventId, (hsame a).invoiceId,
      (hsame a).externalId, (hsame a).tag, hid a] using hab
  · simpa [metadata, uniqueConflict, (hsame a).id, (hsame a).eventId, (hsame a).invoiceId,
      (hsame a).externalId, (hsame a).tag, hid a, (hsame b).id, (hsame b).eventId,
      (hsame b).invoiceId, (hsame b).externalId, (hsame b).tag, hid b] using hab

/-- A claim takes one claimable job or, when there is none, does nothing. -/
theorem claim_apply {db : Database Row} (hc : metadata.Consistent db) (claim : JobClaim) :
    ((∀ j ∈ db transferJobs, claimable claim j = false) ∧
      (StoreOp.transfers (.claim claim)).apply db = (.ok none, db)) ∨
    ∃ row ∈ db transferJobs, claimable claim row = true ∧
      (StoreOp.transfers (.claim claim)).apply db =
        (.ok (some (toJob row (row.attempts + 1) claim.leaseUntil)),
          db.set transferJobs (assignWhere (fun j : TransferJobRow => j.id == row.id)
            (claimed claim row) (db transferJobs))) := by
  change (_ ∧ atomically metadata (TransferClaims.claim claim) db = _) ∨ ∃ row ∈ _, _ ∧
    atomically metadata (TransferClaims.claim claim) db = _
  cases hfirst : firstBy (fun a b : TransferJobRow => a.nextAttemptAt ≤ b.nextAttemptAt)
      ((db transferJobs).filter (claimable claim)) with
  | none =>
      refine .inl ⟨?_, ?_⟩
      · intro j hj
        have hnil := firstBy_eq_none.mp hfirst
        rw [List.filter_eq_nil_iff] at hnil
        simpa using hnil j hj
      · simp [atomically, Program.atomically, TransferClaims.claim, hfirst]
  | some row =>
      have hmem := firstBy_mem hfirst
      rw [List.mem_filter] at hmem
      refine .inr ⟨row, hmem.1, hmem.2, ?_⟩
      have hvalid : metadata.Valid transferJobs (assignWhere
          (fun j : TransferJobRow => j.id == row.id) (claimed claim row) (db transferJobs)) :=
        jobs_valid hc (fun j => ⟨rfl, rfl, rfl, rfl, rfl, rfl, rfl, rfl⟩) fun _ => rfl
      have hupdate : atomically metadata (updateRows transferJobs
          (fun j : TransferJobRow => j.id == row.id) (claimed claim row) >>= fun _ =>
            pure (some (toJob row (row.attempts + 1) claim.leaseUntil))) db = _ :=
        atomically_updateRows
      rw [if_pos hvalid] at hupdate
      rw [← hupdate]
      simp only [atomically, Program.atomically, TransferClaims.claim, lockFirst_bind,
        run_call, respond_lockFirst, hfirst]
      rfl

theorem finish_apply (job : TransferJob) (f : JobFinish) (db : Database Row) :
    atomically metadata (finish job f) db =
      if metadata.Valid transferJobs (assignWhere (heldBy job) f.apply (db transferJobs)) then
        (.ok (((db transferJobs).filter (heldBy job)).length == 1),
          db.set transferJobs (assignWhere (heldBy job) f.apply (db transferJobs)))
      else (.error .integrityError, db) := atomically_updateRows

/-! ### The recording of an event -/

/-- The three things that a recording can do to the job table. -/
inductive JobsRecorded (jobId : TransferJobId) (r : EventRecord) (jobs : List TransferJobRow) :
    List TransferJobRow → Prop
  | same : JobsRecorded jobId r jobs jobs
  | queued {event : CreditedInvoiceEvent} {net : ℤ} : r.event = .credited event →
      r.netAmount = some net →
      JobsRecorded jobId r jobs (jobs ++ [newJob jobId event net r.receivedAt])
  | updated {event : TransferLifecycleEvent} : r.event = .lifecycle event →
      JobsRecorded jobId r jobs
        (assignWhere (fun j => j.externalId == event.externalId) (applyLifecycle r event) jobs)

theorem queueTransfer_jobs (jobId : TransferJobId) (event : CreditedInvoiceEvent)
    (net receivedAt : ℤ) (db : Database Row) :
    Establishes (respond metadata) (queueTransfer jobId event net receivedAt)
      (fun _ db' => db' transferJobs = db transferJobs ∨
        db' transferJobs = db transferJobs ++ [newJob jobId event net receivedAt]) db := by
  have hmark : Establishes (respond metadata) (markDuplicate event.eventId)
      (fun _ db' => db' transferJobs = db transferJobs ∨
        db' transferJobs = db transferJobs ++ [newJob jobId event net receivedAt]) db :=
    ((markOutcome_writes _ _).establishes db).mono fun _ _ h =>
      .inl (h transferJobs (by decide))
  unfold queueTransfer
  simp only [select_bind, establishes_call, respond_select]
  split
  · exact hmark
  · simp only [insert_bind]
    refine establishes_insert (fun db' _ hdb' => (establishes_done _).mpr ?_) fun _ => hmark
    rw [hdb', Database.set_self]
    exact .inr rfl

/-- The ownership check, a correction of the outcome and the event row leave jobs alone. -/
theorem ownsInvoice_jobs (event : CreditedInvoiceEvent) (receivedAt : ℤ) (db : Database Row) :
    Establishes (respond metadata) (ownsInvoice event receivedAt)
      (fun _ db' => db' transferJobs = db transferJobs) db :=
  ((ownsInvoice_writes event receivedAt).establishes db).mono fun _ _ h =>
    h transferJobs (by decide)

theorem recoverDuplicate_jobs (jobId : TransferJobId) (r : EventRecord) (db : Database Row) :
    Establishes (respond metadata) (recoverDuplicate jobId r)
      (fun _ db' => JobsRecorded jobId r (db transferJobs) (db' transferJobs)) db := by
  unfold recoverDuplicate
  split
  · next event net hevent hnet =>
      simp only [select_bind, establishes_call, respond_select]
      split
      · exact (establishes_done _).mpr .same
      · split_ifs
        · exact (establishes_done _).mpr .same
        · refine .bind ((ownsInvoice_jobs event r.receivedAt db).mono ?_)
          rintro (_ | _) db₁ h₁
          · exact (establishes_done _).mpr (h₁ ▸ .same)
          · refine .bind ((queueTransfer_jobs jobId event net r.receivedAt db₁).mono ?_)
            intro o db₂ h₂
            have hdone : JobsRecorded jobId r (db transferJobs) (db₂ transferJobs) := by
              rcases h₂ with h₂ | h₂
              · rw [h₂, h₁]
                exact .same
              · rw [h₂, h₁]
                exact .queued hevent hnet
            split
            · refine ((markOutcome_writes _ _).establishes db₂).mono fun _ db₃ h₃ => ?_
              rw [h₃ transferJobs (by decide)]
              exact hdone
            · exact (establishes_done _).mpr hdone
  · exact (establishes_done _).mpr .same

/-- The event row leaves jobs alone. -/
theorem insert_jobs {r : EventRecord} {outcome : EventWriteResult} {db db' : Database Row}
    (h : db' = db.set webhookEvents (db webhookEvents ++ [eventRow r outcome])) :
    db' transferJobs = db transferJobs := by
  subst h
  exact Database.set_of_ne _ (by decide) _

theorem recordTransferEvent_jobs (jobId : TransferJobId) {r : EventRecord}
    {event : TransferLifecycleEvent} (hevent : r.event = .lifecycle event) (db : Database Row) :
    Establishes (respond metadata) (recordTransferEvent r event)
      (fun _ db' => JobsRecorded jobId r (db transferJobs) (db' transferJobs)) db := by
  unfold recordTransferEvent
  simp only [select_bind, establishes_call, respond_select]
  refine insertEvent_establishes (fun _ db₁ h₁ => ?_) ((establishes_done _).mpr .same)
  unfold updateMatched
  split_ifs
  · refine establishes_updateRows fun _ => (establishes_done _).mpr ?_
    rw [Database.set_self, insert_jobs h₁]
    exact .updated hevent
  · exact (establishes_done _).mpr (insert_jobs h₁ ▸ .same)

theorem record_jobs (jobId : TransferJobId) (r : EventRecord) (db : Database Row) :
    Establishes (respond metadata) (EventRecording.record jobId r)
      (fun _ db' => JobsRecorded jobId r (db transferJobs) (db' transferJobs)) db := by
  unfold EventRecording.record
  split
  · next event hevent => exact recordTransferEvent_jobs jobId hevent db
  · refine insertEvent_establishes (fun _ db₁ h₁ => ?_) (recoverDuplicate_jobs jobId r db)
    simp only
    split
    · next event net hevent hnet =>
        refine .bind ((ownsInvoice_jobs event r.receivedAt db₁).mono ?_)
        rintro (_ | _) db₂ h₂
        · refine ((markOutcome_writes _ _).establishes db₂).mono fun _ db₃ h₃ => ?_
          rw [h₃ transferJobs (by decide), h₂, insert_jobs h₁]
          exact .same
        · refine (queueTransfer_jobs jobId event net r.receivedAt db₂).mono ?_
          rintro o db₃ (h₃ | h₃)
          · rw [h₃, h₂, insert_jobs h₁]
            exact .same
          · rw [h₃, h₂, insert_jobs h₁]
            exact .queued hevent hnet
    · exact (establishes_done _).mpr (insert_jobs h₁ ▸ .same)

theorem record_apply_jobs (jobId : TransferJobId) (r : EventRecord) (db : Database Row) :
    JobsRecorded jobId r (db transferJobs)
      (((StoreOp.events (.record jobId r)).apply db).2 transferJobs) :=
  (record_jobs jobId r db).atomically .same

theorem recordIgnoredWorkspace_apply_jobs (r : EventRecord) (db : Database Row) :
    ((StoreOp.events (.recordIgnoredWorkspace r)).apply db).2 transferJobs = db transferJobs :=
  StoreOp.apply_frame _ (by simp [StoreOp.tables, EventStoreOp.tables]) db

/-- Whatever was recorded, every job that was there still transfers the same. -/
theorem JobsRecorded.kept {jobId : TransferJobId} {r : EventRecord}
    {jobs jobs' : List TransferJobRow} (h : JobsRecorded jobId r jobs jobs') :
    ∀ j ∈ jobs, ∃ j' ∈ jobs', SameTransfer j j' := by
  intro j hj
  cases h with
  | same => exact ⟨j, hj, .refl j⟩
  | queued => exact ⟨j, List.mem_append.mpr (.inl hj), .refl j⟩
  | updated =>
      refine ⟨_, List.mem_map.mpr ⟨j, hj, rfl⟩, ?_⟩
      split_ifs
      · exact ⟨rfl, rfl, rfl, rfl, rfl, rfl, rfl, rfl⟩
      · exact .refl j

/-- A lifecycle event adds no job. -/
theorem JobsRecorded.no_new {jobId : TransferJobId} {r : EventRecord}
    {jobs jobs' : List TransferJobRow} (h : JobsRecorded jobId r jobs jobs')
    {event : TransferLifecycleEvent} (hevent : r.event = .lifecycle event) :
    ∀ j' ∈ jobs', ∃ j ∈ jobs, SameTransfer j j' := by
  intro j' hj'
  cases h with
  | same => exact ⟨j', hj', .refl j'⟩
  | queued hcredited => simp [hevent] at hcredited
  | updated =>
      rcases mem_assignWhere.mp hj' with ⟨j, hj, -, rfl⟩ | ⟨hj, -⟩
      · exact ⟨j, hj, rfl, rfl, rfl, rfl, rfl, rfl, rfl, rfl⟩
      · exact ⟨j', hj, .refl j'⟩

end StarkbankTrial.JobChanges
