import StarkbankTrial.EventRecording
import StarkbankTrial.InvoiceRecording
import StarkbankTrial.BatchClaims
import StarkbankTrial.TransferClaims

/-!
# The stores together

Every write of the application is one of these operations, and each is one
transaction. The second half says which tables an operation can write.
-/
namespace StarkbankTrial.StoreOperations
open Domain InteractivePrograms RelationalTables Transaction DatabaseSchema
open DatabaseSchema.Table
open EventRecording InvoiceRecording BatchClaims TransferClaims

inductive StoreOp where
  | events (op : EventStoreOp)
  | invoices (op : InvoiceStoreOp)
  | trials (op : TrialStoreOp)
  | transfers (op : TransferStoreOp)

abbrev StoreOp.Result : StoreOp → Type
  | .events _ => EventWriteResult
  | .invoices op => op.Result
  | .trials op => op.Result
  | .transfers op => op.Result

def StoreOp.txn : (op : StoreOp) → Txn op.Result
  | .events op => op.txn
  | .invoices op => op.txn
  | .trials op => op.txn
  | .transfers op => op.txn

/-- The answer and the database after the transaction has committed or rolled back. -/
def StoreOp.apply (op : StoreOp) (db : Database Row) :
    Except StoreError op.Result × Database Row := atomically metadata op.txn db

theorem StoreOp.apply_consistent {db : Database Row} (h : metadata.Consistent db)
    (op : StoreOp) : metadata.Consistent (op.apply db).2 := atomically_consistent h op.txn

/-- One transaction after the other. -/
def applyAll (ops : List StoreOp) (db : Database Row) : Database Row :=
  ops.foldl (fun db op => (op.apply db).2) db

/-- What every single operation keeps, a sequence of operations keeps. -/
theorem applyAll_invariant (inv : Database Row → Prop) {ops : List StoreOp}
    (hstep : ∀ op ∈ ops, ∀ db, inv db → inv (op.apply db).2) {db : Database Row}
    (h : inv db) : inv (applyAll ops db) := by
  induction ops generalizing db with
  | nil => exact h
  | cons op ops ih =>
      have hop : inv (op.apply db).2 := hstep op (by simp) db h
      exact ih (fun op' hop' => hstep op' (by simp [hop'])) hop

/-! ### Which tables are written -/

/-- Every statement of the transaction that writes at all writes one of the tables. -/
def WritesOnly {A : Type} (tables : List Table) (p : Txn A) : Prop :=
  p.Issues fun st => ∀ u, st.Writes u → u ∈ tables

def EventStoreOp.tables : EventStoreOp → List Table
  | .record _ _ => [webhookEvents, transferJobs, ownedInvoices, invoiceDrafts]
  | .recordIgnoredWorkspace _ => [webhookEvents]

def InvoiceStoreOp.tables : InvoiceStoreOp → List Table
  | .save _ _ => [invoiceDrafts, ownedInvoices]
  | .registerSmoke _ _ => [ownedInvoices]
  | .bindProviderInvoice _ _ _ => [ownedInvoices]
  | .pending _ _ => []
  | .unknown _ _ => []
  | .created _ => [invoiceDrafts, ownedInvoices]
  | .unknownResult _ => [invoiceDrafts, ownedInvoices]
  | .retry _ _ _ => [invoiceDrafts]
  | .failed _ => [invoiceDrafts, ownedInvoices]
  | .reconcile _ _ => [invoiceDrafts, ownedInvoices]
  | .settle _ _ => [invoiceBatches, trialRuns]

def TrialStoreOp.tables : TrialStoreOp → List Table
  | .create _ _ _ => [trialRuns, invoiceBatches]
  | .claimDueBatch _ => [invoiceBatches, trialRuns]

def TransferStoreOp.tables : TransferStoreOp → List Table
  | .syncCandidates _ => []
  | _ => [transferJobs]

def StoreOp.tables : StoreOp → List Table
  | .events op => EventStoreOp.tables op
  | .invoices op => InvoiceStoreOp.tables op
  | .trials op => TrialStoreOp.tables op
  | .transfers op => TransferStoreOp.tables op

theorem WritesOnly.mono {A : Type} {tables tables' : List Table} {p : Txn A}
    (h : WritesOnly tables p) (hsub : ∀ u ∈ tables, u ∈ tables') : WritesOnly tables' p :=
  Program.Issues.mono h fun _ hst u hu => hsub u (hst u hu)

/-- Tables outside the list are as before, whatever the transaction returns. -/
theorem WritesOnly.establishes {A : Type} {tables : List Table} {p : Txn A}
    (h : WritesOnly tables p) (db : Database Row) :
    Program.Establishes (respond metadata) p (fun _ db' => ∀ u ∉ tables, db' u = db u) db := by
  intro a db' hr u hu
  exact establishes_frame (Program.Issues.mono h fun _ hst hw => hu (hst u hw)) a db' hr

theorem findOwner_writes (event : CreditedInvoiceEvent) (receivedAt : ℤ) :
    WritesOnly [ownedInvoices] (findOwner event receivedAt) := by
  unfold WritesOnly findOwner
  simp only [select_bind, Program.issues_call]
  refine ⟨by simp, fun owners => ?_⟩
  cases owners with
  | nil =>
      simp only [ownerByTag, select_bind, Program.issues_ite, Program.issues_call]
      refine ⟨fun _ => trivial, fun _ => ⟨by simp, fun found => ?_⟩⟩
      split
      · simp [bindOwner, Option.forall]
      · trivial
  | cons owner rest => simp [confirmOwner]

theorem createOwnedDraft_writes (owner : OwnedInvoiceRow) (event : CreditedInvoiceEvent)
    (receivedAt : ℤ) : WritesOnly [invoiceDrafts] (createOwnedDraft owner event receivedAt) := by
  unfold WritesOnly createOwnedDraft
  cases owner.draftId <;> simp

theorem ownsInvoice_writes (event : CreditedInvoiceEvent) (receivedAt : ℤ) :
    WritesOnly [ownedInvoices, invoiceDrafts] (ownsInvoice event receivedAt) := by
  refine .bind ((findOwner_writes event receivedAt).mono (by simp)) fun owner => ?_
  cases owner with
  | none => trivial
  | some owner =>
      exact .bind ((createOwnedDraft_writes owner event receivedAt).mono (by simp))
        fun _ => trivial

theorem markOutcome_writes (eventId : EventId) (outcome : EventWriteResult) :
    WritesOnly [webhookEvents] (markOutcome eventId outcome) := by
  simp [WritesOnly, markOutcome]

theorem queueTransfer_writes (jobId : TransferJobId) (event : CreditedInvoiceEvent)
    (netAmount receivedAt : ℤ) :
    WritesOnly [webhookEvents, transferJobs] (queueTransfer jobId event netAmount receivedAt) := by
  have hmark : WritesOnly [webhookEvents, transferJobs] (markDuplicate event.eventId) :=
    (markOutcome_writes _ _).mono (by simp)
  unfold WritesOnly queueTransfer
  simp only [select_bind, Program.issues_call]
  refine ⟨by simp, fun jobs => ?_⟩
  cases jobs with
  | cons job rest => exact hmark
  | nil =>
      simp only [insert_bind, Program.issues_call, Bool.forall_bool]
      exact ⟨by simp, hmark, trivial⟩

theorem recordTransferEvent_writes (record : EventRecord) (event : TransferLifecycleEvent) :
    WritesOnly [webhookEvents, transferJobs] (recordTransferEvent record event) := by
  unfold WritesOnly recordTransferEvent
  simp only [select_bind, insertEvent, insert_bind, Program.issues_call, Bool.forall_bool]
  refine ⟨by simp, fun jobs => ⟨by simp, trivial, ?_⟩⟩
  simp [updateMatched]

theorem recoverDuplicate_writes (jobId : TransferJobId) (record : EventRecord) :
    WritesOnly (EventStoreOp.tables (.record jobId record)) (recoverDuplicate jobId record) := by
  unfold recoverDuplicate
  split
  · next event netAmount _ _ =>
      unfold WritesOnly
      simp only [select_bind, Program.issues_call]
      refine ⟨by simp, fun stored => ?_⟩
      cases stored with
      | nil => trivial
      | cons row rest =>
          simp only [Program.issues_ite]
          refine ⟨fun _ => trivial, fun _ => ?_⟩
          refine .bind ((ownsInvoice_writes _ _).mono (by simp [EventStoreOp.tables])) ?_
          rintro (_ | _)
          · trivial
          · refine .bind ((queueTransfer_writes _ _ _ _).mono (by simp [EventStoreOp.tables]))
              fun outcome => ?_
            split
            · exact (markOutcome_writes _ _).mono (by simp [EventStoreOp.tables])
            · trivial
  · trivial

theorem eventStore_writes (op : EventStoreOp) : WritesOnly (EventStoreOp.tables op) op.txn := by
  cases op with
  | recordIgnoredWorkspace record =>
      simp [WritesOnly, EventStoreOp.txn, EventStoreOp.tables, recordIgnoredWorkspace,
        insertEvent]
  | record jobId record =>
      change WritesOnly _ (EventRecording.record jobId record)
      unfold EventRecording.record
      split
      · exact (recordTransferEvent_writes _ _).mono (by simp [EventStoreOp.tables])
      · unfold WritesOnly
        simp only [insertEvent, insert_bind, Program.issues_call, Bool.forall_bool]
        refine ⟨by simp [EventStoreOp.tables], recoverDuplicate_writes jobId record, ?_⟩
        split
        · refine .bind ((ownsInvoice_writes _ _).mono (by simp [EventStoreOp.tables])) ?_
          rintro (_ | _)
          · exact (markOutcome_writes _ _).mono (by simp [EventStoreOp.tables])
          · exact (queueTransfer_writes _ _ _ _).mono (by simp [EventStoreOp.tables])
        · trivial

/-- The transactions of the event store raise nothing but a broken constraint. -/
abbrev Unbroken {A : Type} (p : Txn A) : Prop := p.Raises fun e => e = .integrityError

theorem markOutcome_raises (eventId : EventId) (outcome : EventWriteResult) :
    Unbroken (markOutcome eventId outcome) := by
  simp [Unbroken, markOutcome]

theorem ownsInvoice_raises (event : CreditedInvoiceEvent) (receivedAt : ℤ) :
    Unbroken (ownsInvoice event receivedAt) := by
  have howner : Unbroken (findOwner event receivedAt) := by
    unfold Unbroken findOwner
    simp only [select_bind, Program.raises_call]
    intro owners
    cases owners with
    | nil =>
        simp only [ownerByTag, select_bind, Program.raises_ite, Program.raises_call]
        refine ⟨fun _ => trivial, fun _ found => ?_⟩
        split
        · simp [bindOwner, Option.forall]
        · trivial
    | cons owner rest => simp [confirmOwner]
  refine .bind howner fun owner => ?_
  cases owner with
  | none => trivial
  | some owner =>
      refine .bind ?_ fun _ => trivial
      unfold createOwnedDraft
      cases owner.draftId <;> simp

theorem queueTransfer_raises (jobId : TransferJobId) (event : CreditedInvoiceEvent)
    (netAmount receivedAt : ℤ) : Unbroken (queueTransfer jobId event netAmount receivedAt) := by
  unfold Unbroken queueTransfer
  simp only [select_bind, Program.raises_call]
  intro jobs
  cases jobs with
  | cons job rest => exact markOutcome_raises _ _
  | nil =>
      simp only [insert_bind, Program.raises_call, Bool.forall_bool]
      exact ⟨markOutcome_raises _ _, trivial⟩

theorem recoverDuplicate_raises (jobId : TransferJobId) (record : EventRecord) :
    Unbroken (recoverDuplicate jobId record) := by
  unfold recoverDuplicate
  split
  · unfold Unbroken
    simp only [select_bind, Program.raises_call]
    intro stored
    cases stored with
    | nil => trivial
    | cons row rest =>
        simp only [Program.raises_ite]
        refine ⟨fun _ => trivial, fun _ => .bind (ownsInvoice_raises _ _) ?_⟩
        rintro (_ | _)
        · trivial
        · refine .bind (queueTransfer_raises _ _ _ _) fun outcome => ?_
          split
          · exact markOutcome_raises _ _
          · trivial
  · trivial

theorem eventStore_raises (op : EventStoreOp) : Unbroken op.txn := by
  cases op with
  | recordIgnoredWorkspace record =>
      simp [Unbroken, EventStoreOp.txn, recordIgnoredWorkspace, insertEvent]
  | record jobId record =>
      change Unbroken (EventRecording.record jobId record)
      unfold EventRecording.record
      split
      · simp [Unbroken, recordTransferEvent, insertEvent, updateMatched]
      · unfold Unbroken
        simp only [insertEvent, insert_bind, Program.raises_call, Bool.forall_bool]
        refine ⟨recoverDuplicate_raises jobId record, ?_⟩
        split
        · refine .bind (ownsInvoice_raises _ _) ?_
          rintro (_ | _)
          · exact markOutcome_raises _ _
          · exact queueTransfer_raises _ _ _ _
        · trivial

theorem settleRun_writes (runId : TrialRunId) (status : BatchStatus) (now : ℤ) :
    WritesOnly [trialRuns] (settleRun runId status now) := by
  simp [WritesOnly, settleRun]

theorem degradeExhaustedBatches_writes (claim : BatchClaim) :
    WritesOnly [invoiceBatches, trialRuns] (degradeExhaustedBatches claim) := by
  simp only [WritesOnly, degradeExhaustedBatches, issues_updateRows_bind, Program.issues_ite,
    select_bind, Program.issues_call]
  refine ⟨by simp, fun n => ⟨fun _ => trivial, fun _ => ⟨by simp, fun degraded => ?_⟩⟩⟩
  exact .forEach fun runId _ => by simp

theorem invoiceStore_writes (op : InvoiceStoreOp) :
    WritesOnly (InvoiceStoreOp.tables op) op.txn := by
  unfold WritesOnly
  cases op with
  | save batchId drafts => simp [InvoiceStoreOp.txn, InvoiceStoreOp.tables, save]
  | registerSmoke draft atTime =>
      simp [InvoiceStoreOp.txn, InvoiceStoreOp.tables, registerSmoke]
  | bindProviderInvoice tag id atTime =>
      simp only [InvoiceStoreOp.txn, InvoiceStoreOp.tables, bindProviderInvoice, select_bind,
        Program.issues_call]
      refine ⟨by simp, fun owners => ?_⟩
      cases owners with
      | nil => trivial
      | cons owner rest =>
          cases ho : owner.providerInvoiceId <;> simp [ho, Option.forall]
  | pending batchId now => simp [InvoiceStoreOp.txn, InvoiceStoreOp.tables, pending]
  | unknown now limit =>
      simp [InvoiceStoreOp.txn, InvoiceStoreOp.tables, InvoiceRecording.unknown]
  | created result =>
      simp [InvoiceStoreOp.txn, InvoiceStoreOp.tables, created, transition]
  | unknownResult result =>
      simp [InvoiceStoreOp.txn, InvoiceStoreOp.tables, unknownResult, transition]
  | retry result delay maxAttempts =>
      simp [InvoiceStoreOp.txn, InvoiceStoreOp.tables, InvoiceRecording.retry]
  | failed result =>
      simp [InvoiceStoreOp.txn, InvoiceStoreOp.tables, InvoiceRecording.failed, transition]
  | reconcile result limits =>
      simp only [InvoiceStoreOp.txn, InvoiceStoreOp.tables, reconcile]
      cases result.providerInvoice with
      | none => simp [reconcileNotFound]
      | some invoice => simp [created, transition]
  | settle batchId now =>
      simp only [InvoiceStoreOp.txn, InvoiceStoreOp.tables, settle, select_bind,
        Program.issues_call, issues_one_bind, issues_updateRows_bind]
      refine ⟨by simp, fun _ batch _ => ⟨by simp, fun drafts => ⟨by simp, fun _ => ?_⟩⟩⟩
      refine .bind ((settleRun_writes _ _ _).mono ?_) fun _ => trivial
      simp

theorem trialStore_writes (op : TrialStoreOp) :
    WritesOnly (TrialStoreOp.tables op) op.txn := by
  cases op with
  | create uuid5 runId command =>
      simp [WritesOnly, TrialStoreOp.txn, TrialStoreOp.tables, create]
  | claimDueBatch claim =>
      simp only [WritesOnly, TrialStoreOp.txn, TrialStoreOp.tables, claimDueBatch,
        lockFirst_bind, Program.issues_call]
      refine ⟨by simp, fun row => ?_⟩
      cases row with
      | none => exact .bind (degradeExhaustedBatches_writes claim) fun _ => trivial
      | some row => simp

theorem transferStore_writes (op : TransferStoreOp) :
    WritesOnly (TransferStoreOp.tables op) op.txn := by
  unfold WritesOnly
  cases op with
  | claim c =>
      simp only [TransferStoreOp.txn, TransferStoreOp.tables, TransferClaims.claim,
        lockFirst_bind, Program.issues_call]
      refine ⟨by simp, fun row => ?_⟩
      cases row <;> simp
  | syncCandidates limit => simp [TransferStoreOp.txn, TransferStoreOp.tables, syncCandidates]
  | refreshProviderStatus jobId transfer now =>
      simp [TransferStoreOp.txn, TransferStoreOp.tables, refreshProviderStatus]
  | succeeded job transfer now =>
      simp [TransferStoreOp.txn, TransferStoreOp.tables, succeeded, finish]
  | retry job errorCode now delay =>
      simp [TransferStoreOp.txn, TransferStoreOp.tables, TransferClaims.retry, finish]
  | unknown job errorCode now delay =>
      simp [TransferStoreOp.txn, TransferStoreOp.tables, TransferClaims.unknown, finish]
  | failed job errorCode now =>
      simp [TransferStoreOp.txn, TransferStoreOp.tables, TransferClaims.failed, finish]

theorem StoreOp.writes (op : StoreOp) : WritesOnly op.tables op.txn := by
  cases op with
  | events op => exact eventStore_writes op
  | invoices op => exact invoiceStore_writes op
  | trials op => exact trialStore_writes op
  | transfers op => exact transferStore_writes op

/-- A table that the operation does not name stays as it is. -/
theorem StoreOp.apply_frame (op : StoreOp) {u : Table} (h : u ∉ op.tables)
    (db : Database Row) : (op.apply db).2 u = db u :=
  atomically_frame (Program.Issues.mono op.writes fun _ hst hu => h (hst u hu))

/-- The event row is new, or the insert is taken back to its savepoint. -/
theorem insertEvent_establishes {db : Database Row} {record : EventRecord} {outcome : EventWriteResult}
    {A : Type} {f : Bool → Txn A} {post : A → Database Row → Prop}
    (hnew : (∀ e ∈ db webhookEvents, e.id ≠ record.event.eventId) →
      ∀ db', db' = db.set webhookEvents (db webhookEvents ++ [eventRow record outcome]) →
        Program.Establishes (respond metadata) (f true) post db')
    (hold : Program.Establishes (respond metadata) (f false) post db) :
    Program.Establishes (respond metadata) (insertEvent record outcome >>= f) post db := by
  simp only [insertEvent, insert_bind]
  refine establishes_insert (fun db' hi hdb' => hnew ?_ db' hdb') fun _ => hold
  intro e he
  rw [Schema.insertRows_singleton] at hi
  split_ifs at hi with ha
  have hclash := (Schema.accepts_iff.mp ha).2.1 e he
  simpa [metadata, uniqueConflict, eventRow] using hclash

/-! ### The columns of a job that no operation changes -/

/-- One job at two times: what it transfers and for which event is fixed. -/
structure SameTransfer (j j' : TransferJobRow) : Prop where
  id : j'.id = j.id
  eventId : j'.eventId = j.eventId
  invoiceId : j'.invoiceId = j.invoiceId
  amount : j'.amount = j.amount
  fee : j'.fee = j.fee
  netAmount : j'.netAmount = j.netAmount
  externalId : j'.externalId = j.externalId
  tag : j'.tag = j.tag

theorem SameTransfer.refl (j : TransferJobRow) : SameTransfer j j :=
  ⟨rfl, rfl, rfl, rfl, rfl, rfl, rfl, rfl⟩

theorem SameTransfer.trans {j j' j'' : TransferJobRow} (h : SameTransfer j j')
    (h' : SameTransfer j' j'') : SameTransfer j j'' where
  id := h'.id.trans h.id
  eventId := h'.eventId.trans h.eventId
  invoiceId := h'.invoiceId.trans h.invoiceId
  amount := h'.amount.trans h.amount
  fee := h'.fee.trans h.fee
  netAmount := h'.netAmount.trans h.netAmount
  externalId := h'.externalId.trans h.externalId
  tag := h'.tag.trans h.tag

/-- A statement that leaves those columns alone and adds no job. -/
def KeepsTransfers : Statement Row → Prop
  | .update .transferJobs _ assign => ∀ j, SameTransfer j (assign j)
  | st => ¬ st.Writes transferJobs

/-- The same jobs, up to the columns that operations may change. -/
structure SameTransfers (db db' : Database Row) : Prop where
  kept : ∀ j ∈ db transferJobs, ∃ j' ∈ db' transferJobs, SameTransfer j j'
  no_new : ∀ j' ∈ db' transferJobs, ∃ j ∈ db transferJobs, SameTransfer j j'

theorem SameTransfers.of_eq {db db' : Database Row} (h : db' transferJobs = db transferJobs) :
    SameTransfers db db' where
  kept := fun j hj => ⟨j, h ▸ hj, .refl j⟩
  no_new := fun j hj => ⟨j, h ▸ hj, .refl j⟩

theorem SameTransfers.trans {db db' db'' : Database Row} (h : SameTransfers db db')
    (h' : SameTransfers db' db'') : SameTransfers db db'' where
  kept := by
    intro j hj
    obtain ⟨j', hj', hs⟩ := h.kept j hj
    obtain ⟨j'', hj'', hs'⟩ := h'.kept j' hj'
    exact ⟨j'', hj'', hs.trans hs'⟩
  no_new := by
    intro j'' hj''
    obtain ⟨j', hj', hs'⟩ := h'.no_new j'' hj''
    obtain ⟨j, hj, hs⟩ := h.no_new j' hj'
    exact ⟨j, hj, hs.trans hs'⟩

theorem SameTransfers.assign {db : Database Row} {condition : TransferJobRow → Bool}
    {assign : TransferJobRow → TransferJobRow} (h : ∀ j, SameTransfer j (assign j)) :
    SameTransfers db
      (db.set transferJobs (assignWhere condition assign (db transferJobs))) where
  kept := by
    intro j hj
    rw [Database.set_self]
    refine ⟨if condition j then assign j else j, List.mem_map.mpr ⟨j, hj, rfl⟩, ?_⟩
    split_ifs
    · exact h j
    · exact .refl j
  no_new := by
    intro j' hj'
    rw [Database.set_self, mem_assignWhere] at hj'
    rcases hj' with ⟨j, hj, -, rfl⟩ | ⟨hj, -⟩
    · exact ⟨j, hj, h j⟩
    · exact ⟨j', hj, .refl j'⟩

theorem respond_sameTransfers {st : Statement Row} (h : KeepsTransfers st)
    (db : Database Row) : SameTransfers db (respond metadata st db).2 := by
  cases st with
  | select t condition => exact .of_eq rfl
  | lockFirst t condition before => exact .of_eq rfl
  | insert t rows => exact .of_eq (respond_frame (by cases t <;> exact h))
  | insertIfAbsent t row => exact .of_eq (respond_frame (by cases t <;> exact h))
  | update t condition assign =>
      cases t with
      | transferJobs =>
          simp only [respond]
          split_ifs
          · exact .assign h
          · exact .of_eq rfl
      | _ => exact .of_eq (respond_frame h)

theorem finish_keeps (job : TransferJob) (f : JobFinish) :
    (finish job f).Issues KeepsTransfers := by
  simp only [finish, issues_updateRows_bind]
  exact ⟨fun j => ⟨rfl, rfl, rfl, rfl, rfl, rfl, rfl, rfl⟩, fun _ => trivial⟩

theorem transferStore_keeps (op : TransferStoreOp) : op.txn.Issues KeepsTransfers := by
  cases op with
  | claim c =>
      simp only [TransferStoreOp.txn, TransferClaims.claim, lockFirst_bind, Program.issues_call]
      refine ⟨id, fun row => ?_⟩
      cases row with
      | none => trivial
      | some row =>
          simp only [issues_updateRows_bind]
          exact ⟨fun j => ⟨rfl, rfl, rfl, rfl, rfl, rfl, rfl, rfl⟩, fun _ => trivial⟩
  | syncCandidates limit =>
      simp only [TransferStoreOp.txn, syncCandidates, select_bind, Program.issues_call]
      exact ⟨id, fun _ => trivial⟩
  | refreshProviderStatus jobId transfer now =>
      simp only [TransferStoreOp.txn, refreshProviderStatus, issues_updateRows_bind]
      exact ⟨fun j => ⟨rfl, rfl, rfl, rfl, rfl, rfl, rfl, rfl⟩, fun _ => trivial⟩
  | succeeded job transfer now => exact finish_keeps job _
  | retry job errorCode now delay => exact finish_keeps job _
  | unknown job errorCode now delay => exact finish_keeps job _
  | failed job errorCode now => exact finish_keeps job _

/-- Only the recording of an event adds jobs. -/
theorem StoreOp.apply_sameTransfers {op : StoreOp} (h : ∀ eventOp, op ≠ .events eventOp)
    (db : Database Row) : SameTransfers db (op.apply db).2 := by
  cases op with
  | events op => exact absurd rfl (h op)
  | invoices op =>
      refine .of_eq (StoreOp.apply_frame _ ?_ db)
      cases op <;> simp [StoreOp.tables, InvoiceStoreOp.tables]
  | trials op =>
      refine .of_eq (StoreOp.apply_frame _ ?_ db)
      cases op <;> simp [StoreOp.tables, TrialStoreOp.tables]
  | transfers op =>
      have hkeeps := transferStore_keeps op
      exact hkeeps.atomically_rel SameTransfers (fun _ => .of_eq rfl)
        (fun _ _ _ h h' => h.trans h') (fun _ db hst => respond_sameTransfers hst db) db

end StarkbankTrial.StoreOperations
