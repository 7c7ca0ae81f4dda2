import StarkbankTrial.ReviewPages

/-!
# The overview of a trial

The overview groups the rows of one trial by their status. It reads the tables through inner
joins, where the lists use outer joins and statements of their own; what it shows agrees with
the lists filtered by the same trial.
-/
namespace StarkbankTrial.ReviewOverview
open Domain RelationalTables DatabaseSchema SqlSelections KeysetPages ReviewCursors ReviewStore
open ReviewPages

/-! ### Reading the overview -/

/-- The number of rows with each status. -/
abbrev StatusCounts := List (String × ℕ)

structure Counts where
  batches : StatusCounts := []
  invoices : StatusCounts := []
  webhookEvents : StatusCounts := []
  transfers : StatusCounts := []
deriving Repr, DecidableEq

structure Schedule where
  intervalHours : ℕ := 3
  durationHours : ℕ := 24
  slotCount : ℕ := 8
  batchSizeMin : ℕ := 8
  batchSizeMax : ℕ := 12
deriving Repr, DecidableEq

structure TransferTotals where
  amount : ℤ
  fee : ℤ
  netAmount : ℤ
deriving Repr, DecidableEq

structure Overview where
  generatedAt : Option String
  trial : Option TrialPayload
  schedule : Schedule
  counts : Counts
  transferTotalsCents : TransferTotals
deriving Repr, DecidableEq

/-- The trial asked for, or the latest one. -/
def trialRow (db : Database Row) (trialId : Option TrialRunId) : Option TrialRunRow :=
  firstBy (fun a b : TrialRunRow => b.createdAt ≤ a.createdAt)
    (selectWhere (notSmoke TrialRunRow.id :: equalTo (fun r => some r.id) trialId)
      (db .trialRuns))

/-- The drafts with their batches; the sides of the join condition are swapped here. -/
def invoiceFrom (db : Database Row) : List (InvoiceDraftRow × InvoiceBatchRow) :=
  innerJoin (fun draft batch => equals (some draft.batchId) (some batch.id))
    (db .invoiceDrafts) (db .invoiceBatches)

def transferFrom (db : Database Row) :
    List ((TransferJobRow × InvoiceDraftRow) × InvoiceBatchRow) :=
  innerJoin (fun j batch => equals (some batch.id) (some j.2.batchId))
    (innerJoin (fun job draft => equals draft.providerInvoiceId (some job.invoiceId))
      (db .transferJobs) (db .invoiceDrafts))
    (db .invoiceBatches)

def overviewInvoiceIds (db : Database Row) (trialId : TrialRunId) : List (Option InvoiceId) :=
  (selectWhere [fun j => equals (some j.2.runId) (some trialId),
    fun j => some j.1.providerInvoiceId.isSome] (invoiceFrom db)).map
    fun j => j.1.providerInvoiceId

def overviewTransferIds (db : Database Row) (trialId : TrialRunId) :
    List (Option TransferId) :=
  (selectWhere [fun j => equals (some j.2.runId) (some trialId),
    fun j => some j.1.1.providerTransferId.isSome] (transferFrom db)).map
    fun j => j.1.1.providerTransferId

/-- The grouped rows of one trial. -/
def trialBatches (db : Database Row) (trialId : TrialRunId) : List InvoiceBatchRow :=
  selectWhere [fun batch => equals (some batch.runId) (some trialId)] (db .invoiceBatches)

def trialInvoices (db : Database Row) (trialId : TrialRunId) :
    List (InvoiceDraftRow × InvoiceBatchRow) :=
  selectWhere [fun j => equals (some j.2.runId) (some trialId)] (invoiceFrom db)

def trialEvents (db : Database Row) (trialId : TrialRunId) : List WebhookEventRow :=
  selectWhere [fun event => disj (among event.invoiceId (overviewInvoiceIds db trialId))
    (among event.transferId (overviewTransferIds db trialId))] (db .webhookEvents)

def trialTransfers (db : Database Row) (trialId : TrialRunId) :
    List ((TransferJobRow × InvoiceDraftRow) × InvoiceBatchRow) :=
  selectWhere [fun j => equals (some j.2.runId) (some trialId)] (transferFrom db)

def counts (collation : LinearOrder String) (db : Database Row) :
    Option TrialRunId → Counts
  | none => {}
  | some trialId =>
      { batches := grouped collation (fun b => b.status.value) (trialBatches db trialId)
        invoices := grouped collation (fun j => j.1.status.value) (trialInvoices db trialId)
        webhookEvents := grouped collation (fun e => e.outcome.value) (trialEvents db trialId)
        transfers :=
          grouped collation (fun j => j.1.1.status.value) (trialTransfers db trialId) }

/-- The sums over the finished jobs of the trial. -/
def transferTotals (db : Database Row) (trialId : Option TrialRunId) : TransferTotals :=
  let rows := selectWhere
    [fun j => among (some j.1.1.status.value) [some "succeeded", some "permanent_failure"],
      fun j => match trialId with
        | none => some false
        | some id => equals (some j.2.runId) (some id)]
    (transferFrom db)
  { amount := (rows.map fun j => j.1.1.amount).sum
    fee := (rows.map fun j => j.1.1.fee).sum
    netAmount := (rows.map fun j => j.1.1.netAmount).sum }

def overview (collation : LinearOrder String) (now : DateTime) (db : Database Row)
    (trialId : Option TrialRunId) : Overview :=
  let trial := trialRow db trialId
  let trialKey := trial.map TrialRunRow.id
  { generatedAt := iso (some now)
    trial := trial.map trialPayload
    schedule := {}
    counts := counts collation db trialKey
    transferTotalsCents := transferTotals db trialKey }

/-! ### Counts against a list -/

/-- The status under which a list shows an item. -/
def shownStatus : (list : ReviewList) → list.Payload → String
  | .trials, item => TrialPayload.status item
  | .batches, item => BatchPayload.status item
  | .invoices, item => InvoicePayload.status item
  | .transfers, item => TransferPayload.dispatchStatus item
  | .webhookEvents, item => EventPayload.outcome item

/-- The counts add up to the total of every page of the list filtered by the trial, and a
page that holds the full list has as many items with each status. -/
structure CountsAgree (collation : LinearOrder String) (db : Database Row) (trialId : TrialRunId)
    (list : ReviewList) (shown : StatusCounts) : Prop where
  total : ∀ limit c page,
    list.load collation db { limit := limit, cursor := c, trialId := some trialId } = .ok page →
    (shown.map Prod.snd).sum = page.total
  each : ∀ limit, ∃ page,
    list.load collation db { limit := limit, trialId := some trialId } = .ok page ∧
    (page.total ≤ limit → ∀ status,
      (shown.lookup status).getD 0 = (page.items.map (shownStatus list)).count status)

section
variable {collation : LinearOrder String} {db : Database Row} {trialId : TrialRunId}
  {list : ReviewList} {query : ReviewQuery}

theorem load_total {page : ReviewPage list.Payload}
    (h : list.load collation db query = .ok page) : page.total = (list.select db query).count := by
  have hload : list.load collation db query = mappingPage collation (list.select db query) query :=
    load_eq query.cursor
  rw [hload, mappingPage] at h
  cases hdecoded : decodeCursor query.cursor with
  | error e => simp [hdecoded, Bind.bind, Except.bind] at h
  | ok decoded =>
      rw [hdecoded] at h
      obtain rfl := Except.ok.inj h
      rfl

/-- A list that fits on its first page is shown there in full. -/
theorem load_full (collation : LinearOrder String) (list : ReviewList) (db : Database Row)
    (query : ReviewQuery) (limit : ℕ) : ∃ page,
    list.load collation db { query with limit := limit, cursor := none } = .ok page ∧
      ((list.select db query).statement.length ≤ limit →
        page.items.Perm ((list.select db query).statement.map (list.select db query).mapper)) := by
  have hselect : list.select db { query with limit := limit } = list.select db query := by
    cases list <;> rfl
  have hpage : list.load collation db { query with limit := limit, cursor := none } = _ :=
    (load_eq none).trans (mappingPage_eq (list.select db { query with limit := limit })
      (c := none) (by simp))
  refine ⟨_, hpage, fun hlimit => ?_⟩
  rw [hselect, fetch_full hlimit]
  exact descending_perm.map _

/-- Grouped rows that carry the statuses of the selected rows agree with the list. -/
theorem countsAgree_grouped (h : Constrained db) {R : Type} {column : R → String} {rows : List R}
    (hrows : rows.map column =
      (list.select db { trialId := some trialId }).statement.map fun j =>
        shownStatus list ((list.select db { trialId := some trialId }).mapper j)) :
    CountsAgree collation db trialId list (grouped collation column rows) := by
  have hcount : (list.select db { trialId := some trialId }).count = rows.length := by
    rw [select_count h, ← statement_entries h, List.length_map]
    simpa using (congrArg List.length hrows).symm
  have htotal : ∀ limit c page,
      list.load collation db { limit := limit, cursor := c, trialId := some trialId } = .ok page →
      page.total = rows.length := by
    intro limit c page hpage
    rw [← hcount, load_total hpage]
    cases list <;> rfl
  constructor
  · intro limit c page hpage
    rw [grouped_sum, htotal limit c page hpage]
  · intro limit
    obtain ⟨page, hpage, hfull⟩ :=
      load_full collation list db { trialId := some trialId } limit
    refine ⟨page, hpage, fun hlimit status => ?_⟩
    have hlength := congrArg List.length hrows
    rw [List.length_map, List.length_map, ← htotal limit none page hpage] at hlength
    have hitems := hfull (hlength ▸ hlimit)
    rw [grouped_lookup, hrows, (hitems.map (shownStatus list)).count_eq status, List.map_map]
    rfl

/-! ### The grouped rows -/

theorem holds_run {runId : TrialRunId} :
    holds (equals (some runId) (some trialId)) = true ↔ runId = trialId := by
  simp [equals]

/-- A trial that is not the smoke run passes the other condition of the lists anyway. -/
theorem selectWhere_run {R : Type} (hsmoke : trialId ≠ smokeRunId) (column : R → TrialRunId)
    (rows : List R) :
    selectWhere [notSmoke column, fun r => equals (some (column r)) (some trialId)] rows =
      selectWhere [fun r => equals (some (column r)) (some trialId)] rows := by
  refine List.filter_congr fun r _ => ?_
  rw [Bool.eq_iff_iff]
  simp only [holds_conjunction, List.map_cons, List.map_nil, List.all_cons, List.all_nil,
    Bool.and_true, Bool.and_eq_true]
  refine and_iff_right_of_imp fun hrun => ?_
  have hcolumn : column r = trialId := by simpa [equals] using hrun
  simpa [notSmoke, neg, equals, hcolumn] using hsmoke

theorem trialBatches_statement (h : Constrained db) (hsmoke : trialId ≠ smokeRunId) :
    trialBatches db trialId =
      (batchesSelect db { trialId := some trialId }).statement.map Prod.fst := by
  have hentries := batchesSelect_entries h { trialId := some trialId }
  calc trialBatches db trialId
      = selectWhere (batchesConditions { trialId := some trialId }) (db .invoiceBatches) :=
        (selectWhere_run hsmoke InvoiceBatchRow.runId _).symm
    _ = (batchesSelect db { trialId := some trialId }).statement.map Prod.fst := by
        rw [← hentries]
        exact selectWhere_map.symm

theorem invoiceFrom_eq : invoiceFrom db = invoicesJoin db := by
  simp only [invoiceFrom, invoicesJoin, equals_comm]

theorem trialInvoices_statement (hsmoke : trialId ≠ smokeRunId) :
    trialInvoices db trialId = (invoicesSelect db { trialId := some trialId }).statement := by
  rw [trialInvoices, invoiceFrom_eq]
  exact (selectWhere_run hsmoke _ _).symm

theorem overviewInvoiceIds_eq : overviewInvoiceIds db trialId = trialInvoiceIds db trialId := by
  rw [overviewInvoiceIds, trialInvoiceIds, invoiceFrom_eq]

theorem trialEvents_statement :
    trialEvents db trialId = (eventsSelect db { trialId := some trialId }).statement := by
  rw [trialEvents, overviewInvoiceIds_eq]
  rfl

/-- A joined row of the overview as the list has it. -/
def joinedJob (j : (TransferJobRow × InvoiceDraftRow) × InvoiceBatchRow) : JoinedJob :=
  ((j.1.1, some j.1.2), some j.2)

/-- With a batch there is a draft: the outer joins then pair as the inner joins do. -/
theorem transfersJoin_isSome :
    (transfersJoin db).filter (fun j => j.2.isSome) = (transferFrom db).map joinedJob := by
  have hdraft : ∀ j ∈ outerJoin (fun (job : TransferJobRow) (draft : InvoiceDraftRow) =>
        equals draft.providerInvoiceId (some job.invoiceId)) (db .transferJobs) (db .invoiceDrafts),
      j.2.isSome = false → partnersOf (fun (j : TransferJobRow × Option InvoiceDraftRow)
        (batch : InvoiceBatchRow) => equals (some batch.id) (j.2.map InvoiceDraftRow.batchId))
        (db .invoiceBatches) j = [] := by
    intro j _ hnone
    rw [Option.isSome_eq_false_iff, Option.isNone_iff_eq_none] at hnone
    simp [partnersOf, hnone, equals]
  rw [transfersJoin, outerJoin_filter_isSome, ← innerJoin_filter hdraft, outerJoin_filter_isSome,
    innerJoin_map, List.map_map]
  rfl

theorem trialTransfers_statement : (transfersSelect db { trialId := some trialId }).statement =
    (trialTransfers db trialId).map joinedJob := by
  have hbatch : ∀ j : JoinedJob,
      holds (equals j.runId (some trialId)) = true → j.2.isSome = true := by
    intro j hrun
    obtain ⟨runId, hid, -⟩ := holds_equals.mp hrun
    obtain ⟨batch, hb, -⟩ := Option.map_eq_some_iff.mp hid
    exact Option.isSome_of_mem hb
  calc (transfersSelect db { trialId := some trialId }).statement
      = selectWhere [fun j => equals (JoinedJob.runId j) (some trialId)] (transfersJoin db) := rfl
    _ = selectWhere [fun j => equals (JoinedJob.runId j) (some trialId)]
          ((transfersJoin db).filter fun j => j.2.isSome) := by
        rw [selectWhere, selectWhere, List.filter_filter]
        refine List.filter_congr fun j _ => ?_
        rw [Bool.eq_iff_iff]
        simpa using hbatch j
    _ = (trialTransfers db trialId).map joinedJob := by
        rw [transfersJoin_isSome, ← selectWhere_map]
        rfl

/-! ### Trials that do not exist -/

/-- Rows of a trial have a batch of the trial, which refers to the trial. -/
theorem run_of_batch (h : Constrained db) {batch : InvoiceBatchRow}
    (hb : batch ∈ db .invoiceBatches) (hrun : batch.runId = trialId) :
    ∃ trial ∈ db .trialRuns, TrialRunRow.id trial = trialId := by
  obtain ⟨trial, ht, hid⟩ := h.references .invoiceBatches batch hb (.trialRuns, batch.runId)
    (by simp [foreignKeys])
  exact ⟨trial, ht, hid.trans hrun⟩

theorem trialRow_some (hsmoke : trialId ≠ smokeRunId)
    (hexists : ∃ trial ∈ db .trialRuns, TrialRunRow.id trial = trialId) :
    (trialRow db (some trialId)).map TrialRunRow.id = some trialId := by
  obtain ⟨trial, ht, hid⟩ := hexists
  cases hrow : trialRow db (some trialId) with
  | none =>
      have hselected : trial ∈ selectWhere
          (notSmoke TrialRunRow.id :: equalTo (fun r => some r.id) (some trialId))
          (db .trialRuns) := by
        simp [equalTo, given, equals, notSmoke, neg, hid, hsmoke, ht]
      rw [firstBy_eq_none.mp hrow] at hselected
      exact absurd hselected List.not_mem_nil
  | some row =>
      have hselected := (mem_selectWhere.mp (firstBy_mem hrow)).2
      have hrun := hselected _ (List.mem_cons_of_mem _ (List.mem_singleton.mpr rfl))
      simpa [equals] using hrun

theorem trialRow_none
    (hmissing : ¬ ∃ trial ∈ db .trialRuns, TrialRunRow.id trial = trialId) :
    trialRow db (some trialId) = none := by
  refine firstBy_eq_none.mpr (selectWhere_eq_nil
    (List.mem_cons_of_mem _ (List.mem_singleton.mpr rfl)) fun trial ht hrun => ?_)
  exact hmissing ⟨trial, ht, holds_run.mp hrun⟩

/-- No rows hang on a trial that does not exist. -/
theorem counts_missing (h : Constrained db)
    (hmissing : ¬ ∃ trial ∈ db .trialRuns, TrialRunRow.id trial = trialId) :
    counts collation db (some trialId) = {} := by
  have hbatches : ∀ batch ∈ db .invoiceBatches,
      holds (equals (some (InvoiceBatchRow.runId batch)) (some trialId)) ≠ true :=
    fun batch hb hrun => hmissing (run_of_batch h hb (holds_run.mp hrun))
  have hinvoices : ∀ j ∈ invoiceFrom db,
      holds (equals (some j.2.runId) (some trialId)) ≠ true :=
    fun j hj => hbatches j.2 (mem_innerJoin.mp hj).2.1
  have htransfers : ∀ j ∈ transferFrom db,
      holds (equals (some j.2.runId) (some trialId)) ≠ true :=
    fun j hj => hbatches j.2 (mem_innerJoin.mp hj).2.1
  have hb : trialBatches db trialId = [] := selectWhere_eq_nil List.mem_cons_self hbatches
  have hi : trialInvoices db trialId = [] := selectWhere_eq_nil List.mem_cons_self hinvoices
  have ht : trialTransfers db trialId = [] := selectWhere_eq_nil List.mem_cons_self htransfers
  have he : trialEvents db trialId = [] := by
    have hinvoiceIds : overviewInvoiceIds db trialId = [] :=
      List.map_eq_nil_iff.mpr (selectWhere_eq_nil List.mem_cons_self hinvoices)
    have htransferIds : overviewTransferIds db trialId = [] :=
      List.map_eq_nil_iff.mpr (selectWhere_eq_nil List.mem_cons_self htransfers)
    refine selectWhere_eq_nil List.mem_cons_self fun event _ => ?_
    simp [hinvoiceIds, htransferIds, among]
  rw [counts, hb, hi, ht, he]
  rfl

/-- The counts of the overview are those of the trial, whether it exists or not. -/
theorem overview_counts (now : DateTime) (h : Constrained db) (hsmoke : trialId ≠ smokeRunId) :
    (overview collation now db (some trialId)).counts = counts collation db (some trialId) := by
  by_cases hexists : ∃ trial ∈ db .trialRuns, TrialRunRow.id trial = trialId
  · exact congrArg (counts collation db) (trialRow_some hsmoke hexists)
  · have hnone : (overview collation now db (some trialId)).counts = {} := by
      simp [overview, trialRow_none hexists, counts]
    rw [hnone, counts_missing h hexists]

end

/-- The overview of a trial and the lists filtered by it agree: the counts by status add up to
the totals of the lists, and each is the number of listed rows with that status. -/
theorem overview_agrees (collation : LinearOrder String) (now : DateTime) (db : Database Row)
    (h : Constrained db) (trialId : TrialRunId) (hsmoke : trialId ≠ smokeRunId) :
    CountsAgree collation db trialId .batches
      (overview collation now db (some trialId)).counts.batches ∧
    CountsAgree collation db trialId .invoices
      (overview collation now db (some trialId)).counts.invoices ∧
    CountsAgree collation db trialId .webhookEvents
      (overview collation now db (some trialId)).counts.webhookEvents ∧
    CountsAgree collation db trialId .transfers
      (overview collation now db (some trialId)).counts.transfers := by
  rw [overview_counts now h hsmoke]
  refine ⟨countsAgree_grouped h ?_, countsAgree_grouped h ?_, countsAgree_grouped h ?_,
    countsAgree_grouped h ?_⟩
  · rw [trialBatches_statement h hsmoke, List.map_map]
    rfl
  · rw [trialInvoices_statement hsmoke]
    rfl
  · rw [trialEvents_statement]
    rfl
  · change _ = (transfersSelect db { trialId := some trialId }).statement.map _
    rw [trialTransfers_statement, List.map_map]
    rfl

def shownRun : TrialRunRow where
  id := "run"
  status := .active
  startedAt := 0
  endsAt := 1
  createdAt := 0
  completedAt := none
  activeMarker := some 1

def shownBatch : InvoiceBatchRow where
  id := "batch"
  runId := "run"
  slotIndex := 0
  scheduledAt := 0
  targetCount := 8
  status := .completed
  leaseUntil := none
  attempts := 1
  createdAt := 0
  completedAt := some 1

def shownDraft : InvoiceDraftRow where
  id := "draft"
  batchId := "batch"
  ordinal := 0
  payerName := "payer"
  payerTaxId := "tax"
  amount := 100
  tag := "tag"
  status := .created
  providerInvoiceId := some "invoice"
  attempts := 1
  reconcileAttempts := 0
  lastErrorCode := none
  createdAt := 0
  updatedAt := 0
  nextAttemptAt := 0

def creditOf (id : EventId) (invoiceId : InvoiceId) : WebhookEventRow where
  id := id
  subscription := "invoice"
  logType := "credited"
  invoiceId := some invoiceId
  transferId := none
  workspaceId := "workspace"
  payloadHash := "hash"
  outcome := .queued
  receivedAt := 0

def jobOf (id : TransferJobId) (eventId : EventId) (invoiceId : InvoiceId) : TransferJobRow where
  id := id
  eventId := eventId
  invoiceId := invoiceId
  amount := 100
  fee := 0
  netAmount := 100
  externalId := id
  tag := id
  status := .pending
  attempts := 0
  nextAttemptAt := 0
  leaseUntil := none
  providerTransferId := none
  providerStatus := none
  providerLogType := none
  providerStatusUpdatedAt := none
  lastErrorCode := none
  createdAt := 0
  updatedAt := 0

/-- A trial whose only invoice was credited, with its job beside a job of no trial. -/
def creditedTrial : Database Row
  | .trialRuns => [shownRun]
  | .invoiceBatches => [shownBatch]
  | .invoiceDrafts => [shownDraft]
  | .ownedInvoices => []
  | .webhookEvents => [creditOf "event" "invoice", creditOf "other-event" "other"]
  | .transferJobs => [jobOf "job" "event" "invoice", jobOf "other-job" "other-event" "other"]

theorem overview_agrees_creditedTrial :
    CountsAgree inferInstance creditedTrial "run" .batches
      (overview inferInstance (utc 0) creditedTrial (some "run")).counts.batches ∧
    CountsAgree inferInstance creditedTrial "run" .invoices
      (overview inferInstance (utc 0) creditedTrial (some "run")).counts.invoices ∧
    CountsAgree inferInstance creditedTrial "run" .webhookEvents
      (overview inferInstance (utc 0) creditedTrial (some "run")).counts.webhookEvents ∧
    CountsAgree inferInstance creditedTrial "run" .transfers
      (overview inferInstance (utc 0) creditedTrial (some "run")).counts.transfers :=
  overview_agrees inferInstance (utc 0) creditedTrial (by decide) "run" (by decide)

example : counts inferInstance creditedTrial (some "run") =
    { batches := [("completed", 1)]
      invoices := [("created", 1)]
      webhookEvents := [("queued", 1)]
      transfers := [("pending", 1)] } := by decide +kernel

end StarkbankTrial.ReviewOverview
