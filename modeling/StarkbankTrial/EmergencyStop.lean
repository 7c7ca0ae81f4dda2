import StarkbankTrial.ScriptedRuns
import StarkbankTrial.StatusSync
import StarkbankTrial.StoredColumns
import StarkbankTrial.TransferWorker
import StarkbankTrial.UndisturbedServices

/-!
# Live operations switched off

Every process runs with live operations disabled, whatever its other settings and whatever the
state in which they were disabled. Deliveries, reconciliation passes, smoke runs and status
syncs go on reading and recording; nothing is created at the provider, and no trial, batch,
draft or job is begun or carried on.
-/
namespace StarkbankTrial.EmergencyStop
open Domain InteractivePrograms InterleavedRuns RelationalTables Transaction DatabaseSchema
open DatabaseSchema.Table
open RowHistories StoredColumns EventRecording InvoiceRecording TransferClaims StoreOperations
open ExternalCalls ProviderClient Services TransferWorker StatusSync ScriptedRuns

/-! ### What may still happen to a row -/

/-- The state of a job that a worker acts on, and the attempts of a batch. -/
def Standing : (t : Table) → Row t → Row t → Prop
  | .invoiceBatches, b, b' => b'.attempts = b.attempts
  | .transferJobs, j, j' => j'.status = j.status ∧ j'.attempts = j.attempts ∧
      j'.leaseUntil = j.leaseUntil ∧ j'.nextAttemptAt = j.nextAttemptAt ∧
      j'.lastErrorCode = j.lastErrorCode
  | _, _, _ => True

theorem Standing.refl (t : Table) (r : Row t) : Standing t r r := by
  cases t <;> simp [Standing]

theorem Standing.trans {t : Table} {a b c : Row t} (h : Standing t a b) (h' : Standing t b c) :
    Standing t a c := by
  cases t with
  | invoiceBatches =>
      have hattempts : c.attempts = b.attempts := h'
      exact hattempts.trans h
  | transferJobs =>
      obtain ⟨hstatus, hattempts, hlease, hnext, hcode⟩ := h
      obtain ⟨hstatus', hattempts', hlease', hnext', hcode'⟩ := h'
      exact ⟨hstatus'.trans hstatus, hattempts'.trans hattempts, hlease'.trans hlease,
        hnext'.trans hnext, hcode'.trans hcode⟩
  | _ => trivial

/-- The rows that are still inserted: events, owners of smoke invoices, and jobs that wait. -/
def Waiting : (t : Table) → Row t → Prop
  | .trialRuns, _ => False
  | .invoiceBatches, _ => False
  | .invoiceDrafts, _ => False
  | .ownedInvoices, _ => True
  | .webhookEvents, _ => True
  | .transferJobs, j => j.status = .pending ∧ j.attempts = 0 ∧ j.leaseUntil = none

def stopped : Evolution Row where
  moves t r r' := fixedColumns t r' = fixedColumns t r ∧ Standing t r r'
  born := Waiting
  refl t r := ⟨rfl, .refl t r⟩
  trans _ _ _ _ h h' := ⟨h'.1.trans h.1, h.2.trans h'.2⟩

theorem stopped_records : Records stopped where
  event _ _ := trivial
  outcome _ _ := ⟨rfl, trivial⟩
  job _ _ _ _ := ⟨rfl, rfl, rfl⟩
  lifecycle _ _ _ := ⟨rfl, rfl, rfl, rfl, rfl, rfl⟩
  owner _ _ _ := ⟨rfl, trivial⟩
  draft _ _ _ := ⟨rfl, trivial⟩

theorem stopped_reconciles : Reconciles stopped where
  draft _ _ := ⟨rfl, trivial⟩
  draftOwner _ _ := ⟨rfl, trivial⟩
  missed _ _ _ _ _ := ⟨rfl, trivial⟩
  batch _ _ _ := ⟨rfl, rfl⟩
  run _ _ _ := ⟨rfl, trivial⟩
  smokeOwner _ := trivial
  owner _ _ _ := ⟨rfl, trivial⟩

/-! ### The calls that are still made -/

inductive Permitted : StoreOp → Prop
  | events (op : EventStoreOp) : Permitted (.events op)
  | registerSmoke (draft : InvoiceDraft) (atTime : ℤ) :
      Permitted (.invoices (.registerSmoke draft atTime))
  | bind (tag : String) (invoiceId : InvoiceId) (atTime : ℤ) :
      Permitted (.invoices (.bindProviderInvoice tag invoiceId atTime))
  | unknown (now : ℤ) (limit : ℕ) : Permitted (.invoices (.unknown now limit))
  | reconcile (result : InvoiceReconciliation) (limits : ReconcileLimits) :
      Permitted (.invoices (.reconcile result limits))
  | settle (batchId : BatchId) (now : ℤ) : Permitted (.invoices (.settle batchId now))
  | syncCandidates (limit : ℕ) : Permitted (.transfers (.syncCandidates limit))
  | refresh (jobId : TransferJobId) (transfer : ProviderTransfer) (time : ℤ) :
      Permitted (.transfers (.refreshProviderStatus jobId transfer time))

theorem Permitted.allows {op : StoreOp} (h : Permitted op) : op.txn.Issues stopped.Allows := by
  cases h with
  | events op => exact eventStore_allows stopped_records op
  | registerSmoke draft atTime => exact registerSmoke_allows stopped_reconciles draft atTime
  | bind tag invoiceId atTime => exact bindProviderInvoice_allows stopped_reconciles tag invoiceId atTime
  | unknown now limit =>
      simp only [StoreOp.txn, InvoiceStoreOp.txn, InvoiceRecording.unknown, select_bind,
        Program.issues_call]
      exact ⟨trivial, fun _ => trivial⟩
  | reconcile result limits => exact reconcile_allows stopped_reconciles result limits
  | settle batchId now => exact settle_allows stopped_reconciles batchId now
  | syncCandidates limit =>
      simp only [StoreOp.txn, TransferStoreOp.txn, TransferClaims.syncCandidates, select_bind,
        Program.issues_call]
      exact ⟨trivial, fun _ => trivial⟩
  | refresh jobId transfer time =>
      simp only [StoreOp.txn, TransferStoreOp.txn, refreshProviderStatus, issues_updateRows_bind,
        Evolution.allows_update]
      exact ⟨fun _ _ => ⟨rfl, rfl, rfl, rfl, rfl, rfl⟩, fun _ => trivial⟩

/-- Reading the clock, lookups, and those transactions. -/
inductive Quiet : Call → Prop
  | now : Quiet .now
  | store {op : StoreOp} : Permitted op → Quiet (.store op)
  | invoiceQuery (limit : ℕ) (tags : List String) : Quiet (.invoiceQuery limit tags)
  | transferQuery (limit : ℕ) (tags : List String) : Quiet (.transferQuery limit tags)

theorem callStore_issues {op : StoreOp} (h : Permitted op) : (callStore op).Issues Quiet := by
  refine ⟨.store h, fun r => ?_⟩
  cases r <;> trivial

theorem now_issues : now.Issues Quiet := ⟨.now, fun _ => trivial⟩

theorem findInvoice_issues (tag : String) : (findInvoice tag).Issues Quiet := by
  refine ⟨.invoiceQuery _ _, fun answer => ?_⟩
  rcases answer with _ | ⟨_ | _, _⟩ <;> trivial

/-! ### The programs -/

/-- Every service with live operations disabled, a pass of the reconciliation and of the status
sync, and a delivery. -/
inductive Stopped : Service Unit → Prop
  | start (gen : Generators) (cfg : TrialSettings) (runId : TrialRunId)
      (startAt : Option DateTime) (counts : List ℤ) : cfg.liveOperationsEnabled = false →
      Stopped (start gen cfg runId startAt counts).discard
  | tick (gen : Generators) (cfg : TrialSettings) : cfg.liveOperationsEnabled = false →
      Stopped (tick gen cfg).discard
  | pass (cfg : TrialSettings) (setOrder : List BatchId → List BatchId) :
      Stopped (reconcileInvoices cfg setOrder).discard
  | smoke (gen : Generators) (cfg : TrialSettings) (space reference : String) (count : ℕ)
      (amount : ℤ) : cfg.liveOperationsEnabled = false →
      Stopped (runSmokeBatch gen cfg space reference count amount).discard
  | work (cfg : WorkerSettings) : cfg.liveOperationsEnabled = false →
      Stopped (processOne cfg).discard
  | sync (limit : ℕ) : Stopped (providerSyncTransferStatuses limit).discard
  | receive (jobId : TransferJobId) (delivery : Delivery) :
      Stopped (receive jobId delivery).discard

section
variable {gen : Generators} {cfg : TrialSettings}

theorem reconcileDrafts_issues (time : ℤ) (drafts : List InvoiceDraft) (reconciled : ℕ)
    (batches : List BatchId) :
    (reconcileDrafts cfg time drafts reconciled batches).Issues Quiet := by
  induction drafts generalizing reconciled batches with
  | nil => trivial
  | cons draft drafts ih =>
      refine .bind (findInvoice_issues draft.tag) fun found => ?_
      cases found with
      | error e =>
          simp only [Program.issues_ite]
          exact ⟨fun _ => ih _ _, fun _ => trivial⟩
      | ok invoice => exact .bind (callStore_issues (.reconcile _ _)) fun _ => ih _ _

theorem reconcileInvoices_issues (setOrder : List BatchId → List BatchId) :
    (reconcileInvoices cfg setOrder).Issues Quiet := by
  refine .bind now_issues fun time => .bind (callStore_issues (.unknown time 100)) fun drafts => ?_
  refine .bind (reconcileDrafts_issues time drafts 0 []) fun result => .bind ?_ fun _ => trivial
  exact .forEach fun batchId _ => .bind (callStore_issues (.settle batchId time)) fun _ => trivial

theorem recordSmoke_issues (draft : InvoiceDraft) (invoiceId : InvoiceId) (time : ℤ) :
    (recordSmoke draft invoiceId time).Issues Quiet :=
  .bind (callStore_issues (.registerSmoke draft time)) fun _ => callStore_issues (.bind _ _ _)

/-- A smoke run gets as far as the first invoice that is not there yet. -/
theorem smokeInvoices_issues (hlive : cfg.liveOperationsEnabled = false) (space reference : String)
    (amount : ℤ) (ordinals : List ℕ) :
    (smokeInvoices gen cfg space reference amount ordinals).Issues Quiet := by
  induction ordinals with
  | nil => trivial
  | cons ordinal ordinals ih =>
      refine .bind (.bind now_issues fun time => ?_) fun _ => .bind ih fun _ => trivial
      refine .bind (callStore_issues (.registerSmoke _ time)) fun _ => ?_
      refine .bind (findInvoice_issues _) fun found => ?_
      rcases found with e | _ | existing
      · trivial
      · refine .bind ?_ fun created => .bind now_issues fun createdAt => ?_
        · unfold createSmokeInvoice
          rw [hlive]
          trivial
        · exact .bind (recordSmoke_issues _ _ _) fun _ => trivial
      · exact .bind (recordSmoke_issues _ _ _) fun _ => trivial

end

theorem syncCall_quiet {call : Call} (h : Reads call) : Quiet call := by
  cases h with
  | now => exact .now
  | lookup limit tags => exact .transferQuery limit tags
  | candidates limit => exact .store (.syncCandidates limit)
  | refresh jobId transfer time => exact .store (.refresh jobId transfer time)

theorem Stopped.issues {p : Service Unit} (h : Stopped p) : p.Issues Quiet := by
  have hdiscard : ∀ {A : Type} {p : Service A}, p.Issues Quiet → p.discard.Issues Quiet :=
    fun hp => .bind hp fun _ => trivial
  cases h with
  | start gen cfg runId startAt counts hlive =>
      refine hdiscard ?_
      unfold Services.start
      simp [hlive]
  | tick gen cfg hlive =>
      refine hdiscard ?_
      unfold Services.tick
      simp [hlive]
  | pass cfg setOrder => exact hdiscard (reconcileInvoices_issues setOrder)
  | smoke gen cfg space reference count amount hlive =>
      exact hdiscard (.bind (smokeInvoices_issues hlive space reference amount _) fun _ => trivial)
  | work cfg hlive =>
      refine hdiscard ?_
      unfold processOne
      simp [hlive]
  | sync limit =>
      exact hdiscard ((providerSyncTransferStatuses_issues limit).mono fun _ => syncCall_quiet)
  | receive jobId delivery =>
      refine hdiscard ?_
      cases delivery with
      | verified event payloadHash =>
          exact .bind now_issues fun time => callStore_issues (.events _)
      | unexpectedWorkspace event payloadHash =>
          exact .bind now_issues fun time => .bind (callStore_issues (.events _)) fun _ => trivial

/-! ### Runs -/

/-- Any provider and any clocks. The rows may be reordered and the holdings of the provider may
change at any time, and a process may be killed between two calls. -/
def system (ι : Type) (provider : Provider) : System ι Call Call.Answer Failure Unit World where
  admits _ _ _ p := Stopped p
  exec _ w _ call r w' := Performs provider (fun _ => True) w call r w'
  drift _ w w' := Reordered w.db w'.db
  dies _ w _ w' := w' = w

/-- Nothing at the provider was touched, and what the databases hold stands still. -/
structure StoodStill (l : Log ι Call Call.Answer) (db db' : Database Row) : Prop where
  created : ∀ e ∈ l, (∀ request, e.op ≠ .invoiceCreate request) ∧
    ∀ request, e.op ≠ .transferCreate request
  begun : ∀ t, t = trialRuns ∨ t = invoiceBatches ∨ t = invoiceDrafts → ∀ r' ∈ db' t,
    ∃ r ∈ db t, fixedColumns t r' = fixedColumns t r
  kept : ∀ t, ∀ r ∈ db t, ∃ r' ∈ db' t, fixedColumns t r' = fixedColumns t r ∧ Standing t r r'
  queued : ∀ j' ∈ db' transferJobs,
    (∃ j ∈ db transferJobs, fixedColumns transferJobs j' = fixedColumns transferJobs j ∧
      Standing transferJobs j j') ∨
    j'.status = .pending ∧ j'.attempts = 0 ∧ j'.leaseUntil = none

section
variable {ι : Type} [DecidableEq ι] {provider : Provider} {w : World}
variable {c d : Config ι Call Call.Answer Failure Unit World}

theorem performs_leads {w w' : World} {call : Call} {r : call.Answer} (hcall : Quiet call)
    (h : Performs provider (fun _ => True) w call r w') : stopped.Leads w.db w'.db := by
  cases hcall with
  | now =>
      obtain ⟨-, rfl⟩ := h
      exact .refl _ _
  | store hop =>
      obtain ⟨-, rfl⟩ := h
      exact Evolution.atomically_leads hop.allows w.db
  | invoiceQuery limit tags =>
      obtain ⟨-, rfl⟩ := h
      exact .refl _ _
  | transferQuery limit tags =>
      obtain ⟨-, rfl⟩ := h
      exact .refl _ _

theorem runs_leads (h : Runs (system ι provider) (.initial w) c)
    (h' : Runs (system ι provider) c d) : stopped.Leads c.state.db d.state.db :=
  Runs.issued_rel (fun _ _ _ _ => Stopped.issues) (fun w w' : World => stopped.Leads w.db w'.db)
    (fun _ => .refl _ _) (fun _ _ _ h h' => h.trans h')
    (fun _ _ _ _ _ _ hcall he => performs_leads hcall he)
    (fun _ _ _ (hdrift : Reordered _ _) => .of_mem fun _ _ => hdrift.mem)
    (fun _ w _ w' (hdies : w' = w) => hdies ▸ .refl _ _) h h'

/-- With live operations switched off nothing is created, begun or carried on. -/
theorem stands_still (h : Runs (system ι provider) (.initial w) c)
    (h' : Runs (system ι provider) c d) : StoodStill d.log c.state.db d.state.db := by
  have hleads := runs_leads h h'
  refine ⟨fun e he => ?_, fun t ht r' hr' => ?_, fun t r hr => hleads.kept t r hr, fun j' hj' => ?_⟩
  · have hquiet := (Runs.issued (fun _ _ _ _ => Stopped.issues) (h.trans h')).1 e he
    refine ⟨fun request hop => ?_, fun request hop => ?_⟩
    · rw [hop] at hquiet
      cases hquiet
    · rw [hop] at hquiet
      cases hquiet
  · rcases hleads.origin t r' hr' with ⟨r, hr, hfixed, -⟩ | ⟨r, hborn, -⟩
    · exact ⟨r, hr, hfixed⟩
    · rcases ht with rfl | rfl | rfl
      · exact hborn.elim
      · exact hborn.elim
      · exact hborn.elim
  · rcases hleads.origin transferJobs j' hj' with
      ⟨j, hj, hfixed, hstanding⟩ | ⟨j, hborn, -, hstanding⟩
    · exact .inl ⟨j, hj, hfixed, hstanding⟩
    · obtain ⟨hstatus, hattempts, hlease⟩ := hborn
      obtain ⟨hstatus', hattempts', hlease', -, -⟩ := hstanding
      exact .inr ⟨hstatus'.trans hstatus, hattempts'.trans hattempts, hlease'.trans hlease⟩

end

/-- A credit is delivered, a worker is started, and a smoke run does not find its invoice. -/
def whileStopped : List (ScriptedMove ℕ) :=
  [.begin 0 (receive "j" creditDelivery).discard, .call 0 (.clock 1), .call 0 .commit,
    .begin 1 (processOne { liveOperationsEnabled := false }).discard,
    .begin 2 (runSmokeBatch plainGenerators { liveOperationsEnabled := false }
      "space" "smoke" 2 1000).discard,
    .call 2 (.clock 2), .call 2 .commit, .call 2 .lookup]

theorem stands_still_smokeRun : ∃ d : Config ℕ Call Call.Answer Failure Unit World,
    StoodStill d.log creditWorld.db d.state.db ∧
      (d.state.db transferJobs).map TransferJobRow.status = [.pending] ∧
      (d.state.db ownedInvoices).length = 2 := by
  have hends : (playScript {} creditWorld whileStopped).map
      (fun d => ((d.state.db transferJobs).map TransferJobRow.status,
        (d.state.db ownedInvoices).length)) = some ([.pending], 2) := by decide +kernel
  obtain ⟨d, hplay, hd⟩ := Option.map_eq_some_iff.mp hends
  obtain ⟨hjobs, howned⟩ := Prod.mk.inj hd
  have hallowed : ∀ m ∈ whileStopped, m.Allowed (system ℕ UndisturbedServices.anyProvider) := by
    intro m hm
    simp only [whileStopped, List.mem_cons, List.not_mem_nil, or_false] at hm
    rcases hm with rfl | rfl | rfl | rfl | rfl | rfl | rfl | rfl
    · exact fun _ _ _ => .receive _ _
    · trivial
    · trivial
    · exact fun _ _ _ => .work _ rfl
    · exact fun _ _ _ => .smoke _ _ _ _ _ _ rfl
    · trivial
    · trivial
    · trivial
  have hi : HonestInvoices ({} : ScriptRules ℕ) UndisturbedServices.anyProvider :=
    ⟨fun _ _ _ _ => trivial, fun _ _ _ _ _ _ => trivial, fun _ _ _ => trivial,
      fun _ _ _ => trivial, fun _ _ _ _ => trivial⟩
  have ht : HonestTransfers ({} : ScriptRules ℕ) UndisturbedServices.anyProvider :=
    .of_any (fun _ _ _ _ => trivial) fun _ _ _ _ => trivial
  have hruns : Runs (system ℕ UndisturbedServices.anyProvider) (.initial creditWorld) d :=
    playScript_runs hi ht
      (fun _ _ _ _ _ _ _ h => h.mono fun _ _ => trivial) hallowed hplay
  exact ⟨d, stands_still .refl hruns, hjobs, howned⟩

end StarkbankTrial.EmergencyStop
