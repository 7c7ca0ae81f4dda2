import StarkbankTrial.RowHistories
import StarkbankTrial.StoreOperations

/-!
# What is stored for good

No transaction of the application deletes a row, and most columns are written once, with the
row. Any number of sessions may run any of these transactions at the same time, statement by
statement: what was committed stays in those columns, a trial that is over stays over, and every
batch has its trial, every draft its batch, every owned invoice its draft and every transfer
job its event.
-/
namespace StarkbankTrial.StoredColumns
open Domain InteractivePrograms InterleavedRuns RelationalTables RowVersions ReadCommitted
open Transaction DatabaseSchema RowHistories
open DatabaseSchema.Table
open EventRecording InvoiceRecording BatchClaims TransferClaims StoreOperations

/-! ### The recording of events -/

/-- The rows that a recording inserts may be new, and its assignments are moves. -/
structure Records (V : Evolution Row) : Prop where
  event : ∀ r o, V.born webhookEvents (eventRow r o)
  outcome : ∀ (e : WebhookEventRow) o, V.moves webhookEvents e { e with outcome := o }
  job : ∀ jobId event net receivedAt, V.born transferJobs (newJob jobId event net receivedAt)
  lifecycle : ∀ r event j, V.moves transferJobs j (applyLifecycle r event j)
  owner : ∀ (o : OwnedInvoiceRow) id time,
    V.moves ownedInvoices o { o with providerInvoiceId := some id, updatedAt := time }
  draft : ∀ (d : InvoiceDraftRow) id time, V.moves invoiceDrafts d
    { d with providerInvoiceId := some id, status := .created, updatedAt := time }

section
variable {V : Evolution Row}

theorem markOutcome_allows (hV : Records V) (eventId : EventId) (outcome : EventWriteResult) :
    (markOutcome eventId outcome).Issues V.Allows := by
  unfold markOutcome
  simp only [issues_updateRows_bind, Evolution.allows_update]
  exact ⟨fun e _ => hV.outcome e outcome, fun _ => trivial⟩

theorem findOwner_allows (hV : Records V) (event : CreditedInvoiceEvent) (receivedAt : ℤ) :
    (findOwner event receivedAt).Issues V.Allows := by
  unfold findOwner
  simp only [select_bind, Program.issues_call]
  refine ⟨trivial, fun owners => ?_⟩
  cases owners with
  | nil =>
      simp only [ownerByTag, select_bind, Program.issues_ite, Program.issues_call]
      refine ⟨fun _ => trivial, fun _ => ⟨trivial, fun found => ?_⟩⟩
      split
      · simp only [bindOwner, update_bind, Program.issues_ite, Program.issues_call]
        refine ⟨fun _ => trivial, fun _ => ⟨fun o _ => hV.owner o _ _, fun n => ?_⟩⟩
        cases n <;> trivial
      · trivial
  | cons owner rest => simp [confirmOwner]

theorem ownsInvoice_allows (hV : Records V) (event : CreditedInvoiceEvent) (receivedAt : ℤ) :
    (ownsInvoice event receivedAt).Issues V.Allows := by
  refine .bind (findOwner_allows hV event receivedAt) fun owner => ?_
  cases owner with
  | none => trivial
  | some owner =>
      refine .bind ?_ fun _ => trivial
      unfold createOwnedDraft
      cases owner.draftId with
      | none => trivial
      | some draftId =>
          simp only [issues_updateRows_bind, Evolution.allows_update]
          exact ⟨fun d _ => hV.draft d _ _, fun _ => trivial⟩

theorem queueTransfer_allows (hV : Records V) (jobId : TransferJobId)
    (event : CreditedInvoiceEvent) (netAmount receivedAt : ℤ) :
    (queueTransfer jobId event netAmount receivedAt).Issues V.Allows := by
  have hmark : (markDuplicate event.eventId).Issues V.Allows := markOutcome_allows hV _ _
  unfold queueTransfer
  simp only [select_bind, Program.issues_call]
  refine ⟨trivial, fun jobs => ?_⟩
  cases jobs with
  | cons job rest => exact hmark
  | nil =>
      simp only [insert_bind, Program.issues_call, Bool.forall_bool, Evolution.allows_insert,
        List.mem_singleton, forall_eq]
      exact ⟨hV.job _ _ _ _, hmark, trivial⟩

theorem insertEvent_allows (hV : Records V) {A : Type} (r : EventRecord)
    (outcome : EventWriteResult) {f : Bool → Txn A} (hf : ∀ b, (f b).Issues V.Allows) :
    (insertEvent r outcome >>= f).Issues V.Allows := by
  simp only [insertEvent, insert_bind, Program.issues_call, Evolution.allows_insert,
    List.mem_singleton, forall_eq]
  exact ⟨hV.event r outcome, hf⟩

theorem recordTransferEvent_allows (hV : Records V) (r : EventRecord)
    (event : TransferLifecycleEvent) : (recordTransferEvent r event).Issues V.Allows := by
  unfold recordTransferEvent
  simp only [select_bind, Program.issues_call]
  refine ⟨trivial, fun jobs => insertEvent_allows hV r _ fun new => ?_⟩
  cases new with
  | false => trivial
  | true =>
      simp only [updateMatched, Program.issues_ite, issues_updateRows_bind,
        Evolution.allows_update]
      exact ⟨fun _ => ⟨fun j _ => hV.lifecycle r event j, fun _ => trivial⟩, fun _ => trivial⟩

theorem recoverDuplicate_allows (hV : Records V) (jobId : TransferJobId) (r : EventRecord) :
    (recoverDuplicate jobId r).Issues V.Allows := by
  unfold recoverDuplicate
  split
  · simp only [select_bind, Program.issues_call]
    refine ⟨trivial, fun stored => ?_⟩
    cases stored with
    | nil => trivial
    | cons row rest =>
        simp only [Program.issues_ite]
        refine ⟨fun _ => trivial, fun _ => .bind (ownsInvoice_allows hV _ _) ?_⟩
        rintro (_ | _)
        · trivial
        · refine .bind (queueTransfer_allows hV _ _ _ _) fun outcome => ?_
          split
          · exact markOutcome_allows hV _ _
          · trivial
  · trivial

theorem eventStore_allows (hV : Records V) (op : EventStoreOp) : op.txn.Issues V.Allows := by
  cases op with
  | recordIgnoredWorkspace r =>
      exact insertEvent_allows hV r _ fun new => by cases new <;> trivial
  | record jobId r =>
      change (EventRecording.record jobId r).Issues V.Allows
      unfold EventRecording.record
      split
      · exact recordTransferEvent_allows hV r _
      · refine insertEvent_allows hV r _ fun new => ?_
        cases new with
        | false => exact recoverDuplicate_allows hV jobId r
        | true =>
            simp only
            split
            · refine .bind (ownsInvoice_allows hV _ _) ?_
              rintro (_ | _)
              · exact markOutcome_allows hV _ _
              · exact queueTransfer_allows hV _ _ _ _
            · trivial

end

/-! ### Reconciliation and smoke runs -/

/-- What reconciliations and smoke runs write are moves, and the owner of a smoke invoice may
be new. -/
structure Reconciles (V : Evolution Row) : Prop where
  draft : ∀ (t : DraftTransition) d, V.moves invoiceDrafts d (t.apply d)
  draftOwner : ∀ (t : DraftTransition) o, V.moves ownedInvoices o (t.applyOwner o)
  missed : ∀ limits draft atTime stored d,
    V.moves invoiceDrafts d (missDraft limits draft atTime stored d)
  batch : ∀ (b : InvoiceBatchRow) status completedAt, V.moves invoiceBatches b
    { b with status := status, leaseUntil := none, completedAt := completedAt }
  run : ∀ (r : TrialRunRow) status completedAt, V.moves trialRuns r
    { r with status := status, activeMarker := none, completedAt := completedAt }
  smokeOwner : ∀ o, V.born ownedInvoices o
  owner : ∀ (o : OwnedInvoiceRow) invoiceId atTime, V.moves ownedInvoices o
    { o with providerInvoiceId := invoiceId, updatedAt := atTime }

section
variable {V : Evolution Row}

theorem transition_allows (hV : Reconciles V) (t : DraftTransition) :
    (transition t).Issues V.Allows := by
  simp only [transition, issues_updateRows_bind, Evolution.allows_update]
  exact ⟨fun d _ => hV.draft t d, fun _ => ⟨fun o _ => hV.draftOwner t o, fun _ => trivial⟩⟩

theorem reconcile_allows (hV : Reconciles V) (result : InvoiceReconciliation)
    (limits : ReconcileLimits) : (reconcile result limits).Issues V.Allows := by
  unfold reconcile
  cases result.providerInvoice with
  | some invoice => exact transition_allows hV _
  | none =>
      simp only [reconcileNotFound, select_bind, Program.issues_call, issues_one_bind,
        issues_updateRows_bind, Evolution.allows_update]
      exact ⟨trivial, fun _ stored _ => ⟨fun d _ => hV.missed _ _ _ _ d, fun _ => trivial⟩⟩

theorem settle_allows (hV : Reconciles V) (batchId : BatchId) (now : ℤ) :
    (settle batchId now).Issues V.Allows := by
  simp only [settle, select_bind, Program.issues_call, issues_one_bind, issues_updateRows_bind,
    Evolution.allows_update]
  refine ⟨trivial, fun _ batch _ => ⟨trivial, fun drafts =>
    ⟨fun b _ => hV.batch b _ _, fun _ => ?_⟩⟩⟩
  refine .bind ?_ fun _ => trivial
  unfold settleRun
  simp only [Program.issues_ite, issues_updateRows_bind, select_bind, Program.issues_call,
    Evolution.allows_update]
  refine ⟨fun _ => ⟨fun r _ => hV.run r _ _, fun _ => trivial⟩,
    fun _ => ⟨trivial, fun remaining => ⟨fun _ => ?_, fun _ => trivial⟩⟩⟩
  exact ⟨fun r _ => hV.run r _ _, fun _ => trivial⟩

theorem registerSmoke_allows (hV : Reconciles V) (draft : InvoiceDraft) (atTime : ℤ) :
    (registerSmoke draft atTime).Issues V.Allows := by
  simp only [registerSmoke, insertIfAbsent_bind, Program.issues_call, Bool.forall_bool]
  exact ⟨hV.smokeOwner _, trivial, trivial⟩

theorem bindProviderInvoice_allows (hV : Reconciles V) (tag : String) (invoiceId : InvoiceId)
    (atTime : ℤ) : (bindProviderInvoice tag invoiceId atTime).Issues V.Allows := by
  simp only [bindProviderInvoice, select_bind, Program.issues_call]
  refine ⟨trivial, fun owners => ?_⟩
  cases owners with
  | nil => trivial
  | cons owner rest =>
      cases ho : owner.providerInvoiceId with
      | none =>
          simp only [ho, update_bind, Program.issues_call, Evolution.allows_update]
          refine ⟨fun o _ => hV.owner o _ _, fun n => ?_⟩
          cases n <;> trivial
      | some current =>
          simp only [ho, Program.issues_ite, issues_updateRows_bind, Evolution.allows_update]
          exact ⟨fun _ => ⟨fun o _ => hV.owner o _ _, fun _ => trivial⟩, fun _ => trivial⟩

end

/-! ### The columns that are written once -/

/-- A row without the columns that the application changes after it was inserted. -/
def fixedColumns : (t : Table) → Row t → Row t
  | .trialRuns, r => { r with status := .active, completedAt := none, activeMarker := none }
  | .invoiceBatches, b =>
      { b with status := .scheduled, leaseUntil := none, attempts := 0, completedAt := none }
  | .invoiceDrafts, d =>
      { d with
        status := .pending
        providerInvoiceId := none
        attempts := 0
        reconcileAttempts := 0
        lastErrorCode := none
        updatedAt := 0
        nextAttemptAt := 0 }
  | .ownedInvoices, o => { o with providerInvoiceId := none, updatedAt := 0 }
  | .webhookEvents, e => { e with outcome := .ignored }
  | .transferJobs, j =>
      { j with
        status := .pending
        attempts := 0
        nextAttemptAt := 0
        leaseUntil := none
        providerTransferId := none
        providerStatus := none
        providerLogType := none
        providerStatusUpdatedAt := none
        lastErrorCode := none
        updatedAt := 0 }

/-- The trial has ended. -/
def Over : (t : Table) → Row t → Prop
  | .trialRuns, r => r.activeMarker = none
  | _, _ => False

/-- Rows keep the columns that are written once, and no trial begins again. -/
def columns : Evolution Row where
  moves t r r' := fixedColumns t r' = fixedColumns t r ∧ (Over t r → Over t r')
  born _ _ := True
  refl _ _ := ⟨rfl, id⟩
  trans _ _ _ _ h h' := ⟨h'.1.trans h.1, fun ho => h'.2 (h.2 ho)⟩

theorem columns_keepsKeys : columns.KeepsKeys metadata := by
  have hkey : ∀ t (r : Row t), primaryKey t (fixedColumns t r) = primaryKey t r := by
    intro t r
    cases t <;> rfl
  have hrefs : ∀ t (r : Row t), foreignKeys t (fixedColumns t r) = foreignKeys t r := by
    intro t r
    cases t <;> rfl
  rintro t r r' ⟨hfixed, -⟩
  refine ⟨?_, ?_⟩
  · exact (hkey t r').symm.trans ((congrArg (primaryKey t) hfixed).trans (hkey t r))
  · exact (hrefs t r').symm.trans ((congrArg (foreignKeys t) hfixed).trans (hrefs t r))

theorem columns_records : Records columns where
  event _ _ := trivial
  outcome _ _ := ⟨rfl, id⟩
  job _ _ _ _ := trivial
  lifecycle _ _ _ := ⟨rfl, id⟩
  owner _ _ _ := ⟨rfl, id⟩
  draft _ _ _ := ⟨rfl, id⟩

theorem columns_reconciles : Reconciles columns where
  draft _ _ := ⟨rfl, id⟩
  draftOwner _ _ := ⟨rfl, id⟩
  missed _ _ _ _ _ := ⟨rfl, id⟩
  batch _ _ _ := ⟨rfl, id⟩
  run _ _ _ := ⟨rfl, fun _ => rfl⟩
  smokeOwner _ := trivial
  owner _ _ _ := ⟨rfl, id⟩

/-! ### The transactions of the stores -/

theorem invoiceStore_allows (op : InvoiceStoreOp) : op.txn.Issues columns.Allows := by
  cases op with
  | save batchId drafts =>
      simp only [InvoiceStoreOp.txn, save, select_bind, Program.issues_call]
      refine ⟨trivial, fun existing => ?_⟩
      simp only [Program.issues_ite, issues_insertRows_bind, issues_insertRows,
        Evolution.allows_insert]
      exact ⟨fun _ => trivial, fun _ => ⟨fun _ _ => trivial, fun _ _ => trivial⟩⟩
  | registerSmoke draft atTime => exact registerSmoke_allows columns_reconciles draft atTime
  | bindProviderInvoice tag invoiceId atTime =>
      exact bindProviderInvoice_allows columns_reconciles tag invoiceId atTime
  | pending batchId now =>
      simp only [InvoiceStoreOp.txn, pending, select_bind, Program.issues_call]
      exact ⟨trivial, fun _ => trivial⟩
  | unknown now limit =>
      simp only [InvoiceStoreOp.txn, InvoiceRecording.unknown, select_bind, Program.issues_call]
      exact ⟨trivial, fun _ => trivial⟩
  | created result => exact transition_allows columns_reconciles _
  | unknownResult result => exact transition_allows columns_reconciles _
  | retry result delay maxAttempts =>
      simp only [InvoiceStoreOp.txn, InvoiceRecording.retry, select_bind, Program.issues_call,
        issues_one_bind, issues_updateRows_bind, Evolution.allows_update]
      exact ⟨trivial, fun _ draft _ => ⟨fun _ _ => ⟨rfl, id⟩, fun _ => trivial⟩⟩
  | failed result => exact transition_allows columns_reconciles _
  | reconcile result limits => exact reconcile_allows columns_reconciles result limits
  | settle batchId now => exact settle_allows columns_reconciles batchId now

theorem trialStore_allows (op : TrialStoreOp) : op.txn.Issues columns.Allows := by
  cases op with
  | create uuid5 runId command =>
      simp only [TrialStoreOp.txn, create, issues_insertRows_bind, Evolution.allows_insert,
        List.mem_singleton, forall_eq]
      exact ⟨trivial, fun _ _ => trivial, trivial⟩
  | claimDueBatch claim =>
      simp only [TrialStoreOp.txn, claimDueBatch, lockFirst_bind, Program.issues_call]
      refine ⟨trivial, fun row => ?_⟩
      cases row with
      | none =>
          refine .bind ?_ fun _ => trivial
          simp only [degradeExhaustedBatches, issues_updateRows_bind, Program.issues_ite,
            select_bind, Program.issues_call, Evolution.allows_update]
          refine ⟨fun _ _ => ⟨rfl, id⟩, fun n => ⟨fun _ => trivial, fun _ => ⟨trivial, fun _ => ?_⟩⟩⟩
          refine .forEach fun runId _ => ?_
          simp only [issues_updateRows_bind, Evolution.allows_update]
          exact ⟨fun _ _ => ⟨rfl, fun _ => rfl⟩, fun _ => trivial⟩
      | some row =>
          simp only [issues_updateRows_bind, Evolution.allows_update]
          exact ⟨fun _ _ => ⟨rfl, id⟩, fun _ => trivial⟩

theorem finish_allows (job : TransferJob) (f : JobFinish) :
    (finish job f).Issues columns.Allows := by
  simp only [finish, issues_updateRows_bind, Evolution.allows_update]
  exact ⟨fun _ _ => ⟨rfl, id⟩, fun _ => trivial⟩

theorem transferStore_allows (op : TransferStoreOp) : op.txn.Issues columns.Allows := by
  cases op with
  | claim c =>
      simp only [TransferStoreOp.txn, TransferClaims.claim, lockFirst_bind, Program.issues_call]
      refine ⟨trivial, fun row => ?_⟩
      cases row with
      | none => trivial
      | some row =>
          simp only [issues_updateRows_bind, Evolution.allows_update]
          exact ⟨fun _ _ => ⟨rfl, id⟩, fun _ => trivial⟩
  | syncCandidates limit =>
      simp only [TransferStoreOp.txn, syncCandidates, select_bind, Program.issues_call]
      exact ⟨trivial, fun _ => trivial⟩
  | refreshProviderStatus jobId transfer now =>
      simp only [TransferStoreOp.txn, refreshProviderStatus, issues_updateRows_bind,
        Evolution.allows_update]
      exact ⟨fun _ _ => ⟨rfl, id⟩, fun _ => trivial⟩
  | succeeded job transfer now => exact finish_allows job _
  | retry job errorCode now delay => exact finish_allows job _
  | unknown job errorCode now delay => exact finish_allows job _
  | failed job errorCode now => exact finish_allows job _

theorem store_allows (op : StoreOp) : op.txn.Issues columns.Allows := by
  cases op with
  | events op => exact eventStore_allows columns_records op
  | invoices op => exact invoiceStore_allows op
  | trials op => exact trialStore_allows op
  | transfers op => exact transferStore_allows op

/-! ### Any transactions at the same time -/

section
variable {ι : Type} [DecidableEq ι] {ops : ι → StoreOp} {db : Database Row}
variable {c d : Config ι (SessionOp Row) SessionOp.Answer StoreError Unit (Versions ι Row)}

/-- What was committed once is there ever after, and refers to what is there. -/
theorem stored_for_good (hdb : Referenced metadata db)
    (h : Runs (system metadata fun i => (ops i).txn.discard) (.initial (untouched db)) c)
    (h' : Runs (system metadata fun i => (ops i).txn.discard) c d) :
    (∀ t, ∀ r ∈ committedRows c.state t, ∃ r' ∈ committedRows d.state t,
      fixedColumns t r' = fixedColumns t r ∧ (Over t r → Over t r')) ∧
    Referenced metadata (committedRows d.state) := by
  have hops : ∀ i, ((ops i).txn.discard).Issues columns.Allows :=
    fun i => (store_allows (ops i)).bind fun _ => trivial
  exact ⟨(Evolution.runs_leads hops h h').kept,
    (Evolution.runs_rooted hops columns_keepsKeys hdb (h.trans h')).committed⟩

end

/-- A trial is created, and its batch is claimed and settled in two sessions at once. -/
def threeSessions : Fin 3 → StoreOp
  | 0 => .trials (.create (fun name => name) "r" ⟨0, [⟨0, 0, 8⟩]⟩)
  | 1 => .trials (.claimDueBatch ⟨10, 20, 15⟩)
  | 2 => .invoices (.settle "r:batch:0" 30)

theorem stored_for_good_threeSessions :
    ∃ c d : Config (Fin 3) (SessionOp Row) SessionOp.Answer StoreError Unit
        (Versions (Fin 3) Row),
      (committedRows c.state invoiceBatches).map InvoiceBatchRow.status = [.scheduled] ∧
      (committedRows d.state invoiceBatches).map InvoiceBatchRow.attempts = [1] ∧
      (∀ t, ∀ r ∈ committedRows c.state t, ∃ r' ∈ committedRows d.state t,
        fixedColumns t r' = fixedColumns t r ∧ (Over t r → Over t r')) ∧
      Referenced metadata (committedRows d.state) := by
  have hfirst : (playAll (performIf metadata fun _ _ _ _ => True)
      (.initial (untouched emptyDatabase))
      (inOrder (fun i => (threeSessions i).txn.discard) [0, 0, 0])).map
        (fun c => (committedRows c.state invoiceBatches).map InvoiceBatchRow.status) =
      some [.scheduled] := by decide +kernel
  obtain ⟨c, hplay, hc⟩ := Option.map_eq_some_iff.mp hfirst
  have hrest : (playAll (performIf metadata fun _ _ _ _ => True)
      (.initial (untouched emptyDatabase))
      (inOrder (fun i => (threeSessions i).txn.discard) [0, 0, 0] ++
        [1, 2, 1, 2, 1, 2, 2, 2].map fun i => .call i ())).map
        (fun d => (committedRows d.state invoiceBatches).map InvoiceBatchRow.attempts) =
      some [1] := by decide +kernel
  obtain ⟨d, hplay', hd⟩ := Option.map_eq_some_iff.mp hrest
  rw [playAll_append, hplay, Option.bind_some] at hplay'
  have hruns : Runs (system metadata fun i => (threeSessions i).txn.discard)
      (.initial (untouched emptyDatabase)) c := runs_of_restricted (inOrder_runs hplay)
  have hruns' : Runs (system metadata fun i => (threeSessions i).txn.discard) c d :=
    runs_of_restricted (continued_runs hplay')
  have hempty : Referenced metadata emptyDatabase := fun t r hr => by cases hr
  exact ⟨c, d, hc, hd, stored_for_good hempty hruns hruns'⟩

end StarkbankTrial.StoredColumns
