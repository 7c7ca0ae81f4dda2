import StarkbankTrial.DataMigrations
import StarkbankTrial.StoredColumns

/-!
# The migrations of the database

Four revisions. The first creates five tables, the second adds the retry schedule of drafts,
the third what is known of a transfer, the fourth the table of owned invoices, which it fills
from the drafts. Indexes and the JSON column are left out, as in the present schema.

An upgraded database meets the constraints that the application declares, can be taken back,
and gives each draft the owned row that later credits look for. Whatever the stores do with
it afterwards, this stays so.
-/
namespace StarkbankTrial.SchemaMigrations
open Domain InteractivePrograms InterleavedRuns RelationalTables DatabaseSchema
open RowVersions ReadCommitted RowHistories StoreOperations StoredColumns DataMigrations

/-! ### Rows of the first revisions -/

structure InitialDraftRow where
  id : DraftId
  batchId : BatchId
  ordinal : ℤ
  payerName : String
  payerTaxId : String
  amount : ℤ
  tag : String
  status : DraftStatus
  providerInvoiceId : Option InvoiceId
  attempts : ℕ
  reconcileAttempts : ℕ
  lastErrorCode : Option String
  createdAt : ℤ
  updatedAt : ℤ
deriving Repr, DecidableEq

structure InitialEventRow where
  id : EventId
  subscription : String
  logType : String
  invoiceId : Option InvoiceId
  workspaceId : String
  payloadHash : String
  outcome : EventWriteResult
  receivedAt : ℤ
deriving Repr, DecidableEq

structure InitialJobRow where
  id : TransferJobId
  eventId : EventId
  invoiceId : InvoiceId
  amount : ℤ
  fee : ℤ
  netAmount : ℤ
  externalId : ExternalId
  tag : String
  status : TransferStatus
  attempts : ℕ
  nextAttemptAt : ℤ
  leaseUntil : Option ℤ
  providerTransferId : Option TransferId
  lastErrorCode : Option String
  createdAt : ℤ
  updatedAt : ℤ
deriving Repr, DecidableEq

inductive InitialTable where
  | trialRuns | invoiceBatches | invoiceDrafts | webhookEvents | transferJobs
deriving Repr, DecidableEq

abbrev InitialRow : InitialTable → Type
  | .trialRuns => TrialRunRow
  | .invoiceBatches => InvoiceBatchRow
  | .invoiceDrafts => InitialDraftRow
  | .webhookEvents => InitialEventRow
  | .transferJobs => InitialJobRow

abbrev RetryRow : InitialTable → Type
  | .trialRuns => TrialRunRow
  | .invoiceBatches => InvoiceBatchRow
  | .invoiceDrafts => InvoiceDraftRow
  | .webhookEvents => InitialEventRow
  | .transferJobs => InitialJobRow

abbrev LifecycleRow : InitialTable → Type
  | .trialRuns => TrialRunRow
  | .invoiceBatches => InvoiceBatchRow
  | .invoiceDrafts => InvoiceDraftRow
  | .webhookEvents => WebhookEventRow
  | .transferJobs => TransferJobRow

/-! ### `0001_initial` -/

namespace Initial

def primaryKey : (t : InitialTable) → InitialRow t → String
  | .trialRuns, r => r.id
  | .invoiceBatches, r => r.id
  | .invoiceDrafts, r => r.id
  | .webhookEvents, r => r.id
  | .transferJobs, r => r.id

def uniqueConflict : (t : InitialTable) → InitialRow t → InitialRow t → Bool
  | .trialRuns, a, b => a.id == b.id || sameNonNull a.activeMarker b.activeMarker
  | .invoiceBatches, a, b => a.id == b.id || (a.runId == b.runId && a.slotIndex == b.slotIndex)
  | .invoiceDrafts, a, b =>
      a.id == b.id || (a.batchId == b.batchId && a.ordinal == b.ordinal) ||
        sameNonNull a.providerInvoiceId b.providerInvoiceId || a.tag == b.tag
  | .webhookEvents, a, b => a.id == b.id
  | .transferJobs, a, b =>
      a.id == b.id || a.eventId == b.eventId || a.externalId == b.externalId ||
        a.invoiceId == b.invoiceId || sameNonNull a.providerTransferId b.providerTransferId ||
        a.tag == b.tag

def rowCheck : (t : InitialTable) → InitialRow t → Bool
  | .trialRuns, r => r.activeMarker == none || r.activeMarker == some 1
  | .invoiceBatches, r =>
      (0 ≤ r.slotIndex && r.slotIndex ≤ 7) && (8 ≤ r.targetCount && r.targetCount ≤ 12)
  | .invoiceDrafts, r => 0 < r.amount
  | .webhookEvents, _ => true
  | .transferJobs, r => 0 < r.amount && 0 ≤ r.fee && 0 < r.netAmount

def foreignKeys : (t : InitialTable) → InitialRow t → List (InitialTable × String)
  | .trialRuns, _ => []
  | .invoiceBatches, r => [(.trialRuns, r.runId)]
  | .invoiceDrafts, r => [(.invoiceBatches, r.batchId)]
  | .webhookEvents, _ => []
  | .transferJobs, r => [(.webhookEvents, r.eventId)]

def schema : Schema InitialRow String where
  key := primaryKey
  clash := uniqueConflict
  check := rowCheck
  refs := foreignKeys
  clash_comm := by
    intro t a b
    cases t with
    | trialRuns => simp only [uniqueConflict, sameNonNull_comm, Bool.beq_comm]
    | invoiceBatches => simp only [uniqueConflict, Bool.beq_comm]
    | invoiceDrafts => simp only [uniqueConflict, sameNonNull_comm, Bool.beq_comm]
    | webhookEvents => simp only [uniqueConflict, Bool.beq_comm]
    | transferJobs => simp only [uniqueConflict, sameNonNull_comm, Bool.beq_comm]
  clash_of_key := by
    intro t a b h
    cases t <;> simp only [primaryKey] at h <;> simp [uniqueConflict, h]

end Initial

/-! ### `0002_invoice_retry_schedule` -/

namespace InvoiceRetrySchedule

/-- The new column is nullable at first. -/
def addNextAttemptAt (drafts : List InitialDraftRow) : List (InitialDraftRow × Option ℤ) :=
  drafts.map fun d => (d, none)

def copyUpdatedAt (drafts : List (InitialDraftRow × Option ℤ)) :
    List (InitialDraftRow × Option ℤ) :=
  drafts.map fun d => (d.1, some d.1.updatedAt)

def withNextAttemptAt (d : InitialDraftRow) (nextAttemptAt : ℤ) : InvoiceDraftRow where
  id := d.id
  batchId := d.batchId
  ordinal := d.ordinal
  payerName := d.payerName
  payerTaxId := d.payerTaxId
  amount := d.amount
  tag := d.tag
  status := d.status
  providerInvoiceId := d.providerInvoiceId
  attempts := d.attempts
  reconcileAttempts := d.reconcileAttempts
  lastErrorCode := d.lastErrorCode
  createdAt := d.createdAt
  updatedAt := d.updatedAt
  nextAttemptAt := nextAttemptAt

/-- The column is made non-nullable, which a null in it prevents. -/
def setNotNull (drafts : List (InitialDraftRow × Option ℤ)) : Option (List InvoiceDraftRow) :=
  drafts.mapM fun d => d.2.map (withNextAttemptAt d.1)

def withDrafts (db : Database InitialRow) (drafts : List InvoiceDraftRow) : Database RetryRow
  | .trialRuns => db .trialRuns
  | .invoiceBatches => db .invoiceBatches
  | .invoiceDrafts => drafts
  | .webhookEvents => db .webhookEvents
  | .transferJobs => db .transferJobs

def upgrade (db : Database InitialRow) : Option (Database RetryRow) :=
  (setNotNull (copyUpdatedAt (addNextAttemptAt (db .invoiceDrafts)))).map (withDrafts db)

def dropNextAttemptAt (d : InvoiceDraftRow) : InitialDraftRow where
  id := d.id
  batchId := d.batchId
  ordinal := d.ordinal
  payerName := d.payerName
  payerTaxId := d.payerTaxId
  amount := d.amount
  tag := d.tag
  status := d.status
  providerInvoiceId := d.providerInvoiceId
  attempts := d.attempts
  reconcileAttempts := d.reconcileAttempts
  lastErrorCode := d.lastErrorCode
  createdAt := d.createdAt
  updatedAt := d.updatedAt

def dropColumns : (t : InitialTable) → RetryRow t → InitialRow t
  | .trialRuns, r => r
  | .invoiceBatches, r => r
  | .invoiceDrafts, d => dropNextAttemptAt d
  | .webhookEvents, r => r
  | .transferJobs, r => r

def fillColumns : (t : InitialTable) → InitialRow t → RetryRow t
  | .trialRuns, r => r
  | .invoiceBatches, r => r
  | .invoiceDrafts, d => withNextAttemptAt d d.updatedAt
  | .webhookEvents, r => r
  | .transferJobs, r => r

theorem setNotNull_filled (drafts : List InitialDraftRow) :
    setNotNull (copyUpdatedAt (addNextAttemptAt drafts)) =
      some (drafts.map fun d => withNextAttemptAt d d.updatedAt) := by
  induction drafts with
  | nil => rfl
  | cons d drafts ih =>
      simp only [setNotNull, copyUpdatedAt, addNextAttemptAt, List.map_cons, List.mapM_cons] at ih ⊢
      rw [ih]
      rfl

/-- No draft is without the new column when it becomes non-nullable. -/
theorem upgrade_eq (db : Database InitialRow) : upgrade db = some (mapRows fillColumns db) := by
  unfold upgrade
  rw [setNotNull_filled, Option.map_some]
  congr 1
  funext t
  cases t with
  | invoiceDrafts => rfl
  | trialRuns => exact (List.map_id _).symm
  | invoiceBatches => exact (List.map_id _).symm
  | webhookEvents => exact (List.map_id _).symm
  | transferJobs => exact (List.map_id _).symm

def schema : Schema RetryRow String := widened Initial.schema dropColumns

def migration : Migration Initial.schema schema :=
  (Migration.addColumns Initial.schema dropColumns fillColumns fun t r => by
    cases t <;> rfl).withUpgrade upgrade upgrade_eq

end InvoiceRetrySchedule

/-! ### `0003_transfer_lifecycle` -/

namespace TransferLifecycle

def addTransferId (e : InitialEventRow) : WebhookEventRow where
  id := e.id
  subscription := e.subscription
  logType := e.logType
  invoiceId := e.invoiceId
  transferId := none
  workspaceId := e.workspaceId
  payloadHash := e.payloadHash
  outcome := e.outcome
  receivedAt := e.receivedAt

def addProviderStatus (j : InitialJobRow) : TransferJobRow where
  id := j.id
  eventId := j.eventId
  invoiceId := j.invoiceId
  amount := j.amount
  fee := j.fee
  netAmount := j.netAmount
  externalId := j.externalId
  tag := j.tag
  status := j.status
  attempts := j.attempts
  nextAttemptAt := j.nextAttemptAt
  leaseUntil := j.leaseUntil
  providerTransferId := j.providerTransferId
  providerStatus := none
  providerLogType := none
  providerStatusUpdatedAt := none
  lastErrorCode := j.lastErrorCode
  createdAt := j.createdAt
  updatedAt := j.updatedAt

def dropTransferId (e : WebhookEventRow) : InitialEventRow where
  id := e.id
  subscription := e.subscription
  logType := e.logType
  invoiceId := e.invoiceId
  workspaceId := e.workspaceId
  payloadHash := e.payloadHash
  outcome := e.outcome
  receivedAt := e.receivedAt

def dropProviderStatus (j : TransferJobRow) : InitialJobRow where
  id := j.id
  eventId := j.eventId
  invoiceId := j.invoiceId
  amount := j.amount
  fee := j.fee
  netAmount := j.netAmount
  externalId := j.externalId
  tag := j.tag
  status := j.status
  attempts := j.attempts
  nextAttemptAt := j.nextAttemptAt
  leaseUntil := j.leaseUntil
  providerTransferId := j.providerTransferId
  lastErrorCode := j.lastErrorCode
  createdAt := j.createdAt
  updatedAt := j.updatedAt

def dropColumns : (t : InitialTable) → LifecycleRow t → RetryRow t
  | .trialRuns, r => r
  | .invoiceBatches, r => r
  | .invoiceDrafts, r => r
  | .webhookEvents, e => dropTransferId e
  | .transferJobs, j => dropProviderStatus j

def addColumns : (t : InitialTable) → RetryRow t → LifecycleRow t
  | .trialRuns, r => r
  | .invoiceBatches, r => r
  | .invoiceDrafts, r => r
  | .webhookEvents, e => addTransferId e
  | .transferJobs, j => addProviderStatus j

def schema : Schema LifecycleRow String := widened InvoiceRetrySchedule.schema dropColumns

def migration : Migration InvoiceRetrySchedule.schema schema :=
  .addColumns InvoiceRetrySchedule.schema dropColumns addColumns fun t r => by cases t <;> rfl

end TransferLifecycle

/-! ### `0004_owned_invoices` -/

namespace OwnedInvoices

/-- The tables that were there keep their constraints. -/
def primaryKey : (t : Table) → Row t → String
  | .trialRuns, r => TransferLifecycle.schema.key .trialRuns r
  | .invoiceBatches, r => TransferLifecycle.schema.key .invoiceBatches r
  | .invoiceDrafts, r => TransferLifecycle.schema.key .invoiceDrafts r
  | .webhookEvents, r => TransferLifecycle.schema.key .webhookEvents r
  | .transferJobs, r => TransferLifecycle.schema.key .transferJobs r
  | .ownedInvoices, r => r.tag

def uniqueConflict : (t : Table) → Row t → Row t → Bool
  | .trialRuns, a, b => TransferLifecycle.schema.clash .trialRuns a b
  | .invoiceBatches, a, b => TransferLifecycle.schema.clash .invoiceBatches a b
  | .invoiceDrafts, a, b => TransferLifecycle.schema.clash .invoiceDrafts a b
  | .webhookEvents, a, b => TransferLifecycle.schema.clash .webhookEvents a b
  | .transferJobs, a, b => TransferLifecycle.schema.clash .transferJobs a b
  | .ownedInvoices, a, b =>
      a.tag == b.tag || sameNonNull a.draftId b.draftId ||
        sameNonNull a.providerInvoiceId b.providerInvoiceId

def rowCheck : (t : Table) → Row t → Bool
  | .trialRuns, r => TransferLifecycle.schema.check .trialRuns r
  | .invoiceBatches, r => TransferLifecycle.schema.check .invoiceBatches r
  | .invoiceDrafts, r => TransferLifecycle.schema.check .invoiceDrafts r
  | .webhookEvents, r => TransferLifecycle.schema.check .webhookEvents r
  | .transferJobs, r => TransferLifecycle.schema.check .transferJobs r
  | .ownedInvoices, r => r.source == "trial" || r.source == "smoke"

def kept : InitialTable → Table
  | .trialRuns => .trialRuns
  | .invoiceBatches => .invoiceBatches
  | .invoiceDrafts => .invoiceDrafts
  | .webhookEvents => .webhookEvents
  | .transferJobs => .transferJobs

def keptRefs (t : InitialTable) (r : LifecycleRow t) : List (Table × String) :=
  (TransferLifecycle.schema.refs t r).map fun ref => (kept ref.1, ref.2)

def foreignKeys : (t : Table) → Row t → List (Table × String)
  | .trialRuns, r => keptRefs .trialRuns r
  | .invoiceBatches, r => keptRefs .invoiceBatches r
  | .invoiceDrafts, r => keptRefs .invoiceDrafts r
  | .webhookEvents, r => keptRefs .webhookEvents r
  | .transferJobs, r => keptRefs .transferJobs r
  | .ownedInvoices, r => (r.draftId.map fun id => (.invoiceDrafts, id)).toList

def schema : Schema Row String where
  key := primaryKey
  clash := uniqueConflict
  check := rowCheck
  refs := foreignKeys
  clash_comm := by
    intro t a b
    cases t with
    | trialRuns => exact TransferLifecycle.schema.clash_comm .trialRuns a b
    | invoiceBatches => exact TransferLifecycle.schema.clash_comm .invoiceBatches a b
    | invoiceDrafts => exact TransferLifecycle.schema.clash_comm .invoiceDrafts a b
    | webhookEvents => exact TransferLifecycle.schema.clash_comm .webhookEvents a b
    | transferJobs => exact TransferLifecycle.schema.clash_comm .transferJobs a b
    | ownedInvoices => simp only [uniqueConflict, sameNonNull_comm, Bool.beq_comm]
  clash_of_key := by
    intro t a b h
    cases t with
    | trialRuns => exact TransferLifecycle.schema.clash_of_key .trialRuns a b h
    | invoiceBatches => exact TransferLifecycle.schema.clash_of_key .invoiceBatches a b h
    | invoiceDrafts => exact TransferLifecycle.schema.clash_of_key .invoiceDrafts a b h
    | webhookEvents => exact TransferLifecycle.schema.clash_of_key .webhookEvents a b h
    | transferJobs => exact TransferLifecycle.schema.clash_of_key .transferJobs a b h
    | ownedInvoices =>
        simp only [primaryKey] at h
        simp [uniqueConflict, h]

/-- The migrations lead to the schema that the application declares. -/
theorem schema_eq_metadata : schema = metadata := by
  unfold schema metadata
  rw [Schema.mk.injEq]
  refine ⟨?_, ?_, ?_, ?_⟩
  · funext t r
    cases t <;> rfl
  · funext t a b
    cases t with
    | trialRuns => rfl
    | invoiceBatches => rfl
    | invoiceDrafts =>
        have horder : ∀ p q r s : Bool, (p || q || r || s) = (p || s || q || r) := by decide
        exact horder _ _ _ _
    | webhookEvents => rfl
    | transferJobs =>
        have horder : ∀ p q r s t u : Bool,
            (p || q || r || s || t || u) = (p || q || s || r || u || t) := by decide
        exact horder _ _ _ _ _ _
    | ownedInvoices => exact Bool.or_right_comm ..
  · funext t r
    cases t with
    | invoiceBatches => exact Bool.and_comm ..
    | trialRuns => rfl
    | invoiceDrafts => rfl
    | webhookEvents => rfl
    | transferJobs => rfl
    | ownedInvoices => rfl
  · funext t r
    cases t <;> rfl

def createTable (db : Database LifecycleRow) : Database Row
  | .trialRuns => db .trialRuns
  | .invoiceBatches => db .invoiceBatches
  | .invoiceDrafts => db .invoiceDrafts
  | .webhookEvents => db .webhookEvents
  | .transferJobs => db .transferJobs
  | .ownedInvoices => []

def selected (d : InvoiceDraftRow) : OwnedInvoiceRow where
  tag := d.tag
  providerInvoiceId := d.providerInvoiceId
  source := if d.batchId = "sandbox-smoke" then "smoke" else "trial"
  draftId := some d.id
  createdAt := d.createdAt
  updatedAt := d.updatedAt

def upgrade (db : Database LifecycleRow) : Option (Database Row) :=
  schema.insertRows .ownedInvoices ((db .invoiceDrafts).map selected) (createTable db)

def downgrade (db : Database Row) : Database LifecycleRow
  | .trialRuns => db .trialRuns
  | .invoiceBatches => db .invoiceBatches
  | .invoiceDrafts => db .invoiceDrafts
  | .webhookEvents => db .webhookEvents
  | .transferJobs => db .transferJobs

theorem downgrade_createTable (db : Database LifecycleRow) : downgrade (createTable db) = db := by
  funext t
  cases t <;> rfl

theorem downgrade_set (db : Database Row) (rows : List OwnedInvoiceRow) :
    downgrade (db.set .ownedInvoices rows) = downgrade db := by
  funext t
  cases t <;> exact Database.set_of_ne (t := Table.ownedInvoices) db (by decide) rows

/-! Rows of the tables that were there. -/

def asRow : (t : InitialTable) → LifecycleRow t → Row (kept t)
  | .trialRuns, r => r
  | .invoiceBatches, r => r
  | .invoiceDrafts, r => r
  | .webhookEvents, r => r
  | .transferJobs, r => r

theorem exists_asRow {t : InitialTable} (q : Row (kept t)) : ∃ r, asRow t r = q := by
  cases t <;> exact ⟨q, rfl⟩

theorem mem_asRow {db : Database Row} {t : InitialTable} {r : LifecycleRow t} :
    asRow t r ∈ db (kept t) ↔ r ∈ downgrade db t := by
  cases t <;> rfl

theorem key_asRow {t : InitialTable} {r : LifecycleRow t} :
    schema.key (kept t) (asRow t r) = TransferLifecycle.schema.key t r := by
  cases t <;> rfl

theorem refs_asRow {t : InitialTable} {r : LifecycleRow t} :
    schema.refs (kept t) (asRow t r) = keptRefs t r := by
  cases t <;> rfl

/-- Rows that were there refer to rows that were there. -/
theorem referenced_kept {db : Database Row} : Referenced TransferLifecycle.schema (downgrade db) ↔
    ∀ t, ∀ r ∈ db (kept t), ∀ ref ∈ schema.refs (kept t) r,
      ∃ q ∈ db ref.1, schema.key ref.1 q = ref.2 := by
  constructor
  · intro h t q hq ref href
    obtain ⟨r, rfl⟩ := exists_asRow q
    rw [refs_asRow] at href
    obtain ⟨old, hold, rfl⟩ := List.mem_map.mp href
    obtain ⟨r', hr', hkey⟩ := h t r (mem_asRow.mp hq) old hold
    exact ⟨asRow old.1 r', mem_asRow.mpr hr', key_asRow.trans hkey⟩
  · intro h t r hr ref href
    have hmapped : (kept ref.1, ref.2) ∈ schema.refs (kept t) (asRow t r) := by
      rw [refs_asRow]
      exact List.mem_map.mpr ⟨ref, href, rfl⟩
    obtain ⟨q, hq, hkey⟩ := h t (asRow t r) (mem_asRow.mpr hr) _ hmapped
    obtain ⟨r', rfl⟩ := exists_asRow q
    exact ⟨r', mem_asRow.mp hq, key_asRow.symm.trans hkey⟩

theorem downgrade_intact {db : Database Row} (h : Intact schema db) :
    Intact TransferLifecycle.schema (downgrade db) where
  consistent t := by
    cases t with
    | trialRuns => exact h.consistent .trialRuns
    | invoiceBatches => exact h.consistent .invoiceBatches
    | invoiceDrafts => exact h.consistent .invoiceDrafts
    | webhookEvents => exact h.consistent .webhookEvents
    | transferJobs => exact h.consistent .transferJobs
  referenced := referenced_kept.mpr fun t => h.referenced (kept t)

theorem createTable_intact {db : Database LifecycleRow} (h : Intact TransferLifecycle.schema db) :
    Intact schema (createTable db) where
  consistent t := by
    cases t with
    | trialRuns => exact h.consistent .trialRuns
    | invoiceBatches => exact h.consistent .invoiceBatches
    | invoiceDrafts => exact h.consistent .invoiceDrafts
    | webhookEvents => exact h.consistent .webhookEvents
    | transferJobs => exact h.consistent .transferJobs
    | ownedInvoices => exact ⟨by simp [createTable], .nil⟩
  referenced t := by
    have hkept := referenced_kept.mp ((downgrade_createTable db).symm ▸ h.referenced)
    cases t with
    | trialRuns => exact hkept .trialRuns
    | invoiceBatches => exact hkept .invoiceBatches
    | invoiceDrafts => exact hkept .invoiceDrafts
    | webhookEvents => exact hkept .webhookEvents
    | transferJobs => exact hkept .transferJobs
    | ownedInvoices => exact fun r hr => by cases hr

/-- What tells two drafts apart tells their owned rows apart. -/
theorem selected_clash {a b : InvoiceDraftRow}
    (h : TransferLifecycle.schema.clash .invoiceDrafts a b = false) :
    schema.clash .ownedInvoices (selected a) (selected b) = false := by
  have hclash : (a.id == b.id || (a.batchId == b.batchId && a.ordinal == b.ordinal) ||
      sameNonNull a.providerInvoiceId b.providerInvoiceId || a.tag == b.tag) = false := h
  show (a.tag == b.tag || sameNonNull (some a.id) (some b.id) ||
    sameNonNull a.providerInvoiceId b.providerInvoiceId) = false
  simp only [Bool.or_eq_false_iff] at hclash ⊢
  obtain ⟨⟨⟨hid, -⟩, hinvoice⟩, htag⟩ := hclash
  exact ⟨⟨htag, hid⟩, hinvoice⟩

theorem selected_valid {db : Database LifecycleRow} (h : TransferLifecycle.schema.Consistent db) :
    schema.Valid .ownedInvoices ((db .invoiceDrafts).map selected) := by
  refine ⟨fun o ho => ?_, ?_⟩
  · obtain ⟨d, -, rfl⟩ := List.mem_map.mp ho
    show ((selected d).source == "trial" || (selected d).source == "smoke") = true
    unfold selected
    split_ifs <;> rfl
  · rw [List.pairwise_map]
    exact (h .invoiceDrafts).2.imp selected_clash

theorem upgrade_eq {db : Database LifecycleRow} (h : Intact TransferLifecycle.schema db) :
    upgrade db = some ((createTable db).set .ownedInvoices ((db .invoiceDrafts).map selected)) := by
  refine Schema.insertRows_ok (S := schema) (t := .ownedInvoices) (selected_valid h.consistent) ?_
  intro o ho ref href
  obtain ⟨d, hd, rfl⟩ := List.mem_map.mp ho
  have hone : ref = (Table.invoiceDrafts, d.id) := List.mem_singleton.mp href
  subst hone
  exact ⟨d, hd, rfl⟩

theorem upgrade_intact {db : Database LifecycleRow} (h : Intact TransferLifecycle.schema db) :
    Intact schema
      ((createTable db).set .ownedInvoices ((db .invoiceDrafts).map selected)) where
  consistent := (createTable_intact h).consistent.set (selected_valid h.consistent)
  referenced t r hr ref href := by
    have hrefs : ∃ q ∈ createTable db ref.1, schema.key ref.1 q = ref.2 := by
      by_cases ht : t = .ownedInvoices
      · subst ht
        rw [Database.set_self] at hr
        obtain ⟨d, hd, rfl⟩ := List.mem_map.mp hr
        obtain rfl : ref = (Table.invoiceDrafts, d.id) := List.mem_singleton.mp href
        exact ⟨d, hd, rfl⟩
      · rw [Database.set_of_ne _ ht] at hr
        exact (createTable_intact h).referenced t r hr ref href
    obtain ⟨q, hq, hkey⟩ := hrefs
    refine ⟨q, ?_, hkey⟩
    rcases ref with ⟨u, key⟩
    cases u with
    | ownedInvoices => cases hq
    | trialRuns => exact hq
    | invoiceBatches => exact hq
    | invoiceDrafts => exact hq
    | webhookEvents => exact hq
    | transferJobs => exact hq

def migration : Migration TransferLifecycle.schema schema where
  upgrade := upgrade
  downgrade := downgrade
  upgraded db h := ⟨_, upgrade_eq h, upgrade_intact h⟩
  downgraded _ h := downgrade_intact h
  undone db db' h := by
    rw [Schema.insertRows_eq h, downgrade_set, downgrade_createTable]

end OwnedInvoices

/-! ### `alembic upgrade head` -/

inductive Revision where
  | initial | invoiceRetrySchedule | transferLifecycle | ownedInvoices
deriving Repr, DecidableEq

abbrev Revision.Table : Revision → Type
  | .initial => InitialTable
  | .invoiceRetrySchedule => InitialTable
  | .transferLifecycle => InitialTable
  | .ownedInvoices => DatabaseSchema.Table

abbrev Revision.Row : (v : Revision) → v.Table → Type
  | .initial => InitialRow
  | .invoiceRetrySchedule => RetryRow
  | .transferLifecycle => LifecycleRow
  | .ownedInvoices => DatabaseSchema.Row

def Revision.schema : (v : Revision) → Schema v.Row String
  | .initial => Initial.schema
  | .invoiceRetrySchedule => InvoiceRetrySchedule.schema
  | .transferLifecycle => TransferLifecycle.schema
  | .ownedInvoices => OwnedInvoices.schema

def toHead : (v : Revision) → Migration v.schema OwnedInvoices.schema
  | .initial =>
      InvoiceRetrySchedule.migration.trans
        (TransferLifecycle.migration.trans OwnedInvoices.migration)
  | .invoiceRetrySchedule => TransferLifecycle.migration.trans OwnedInvoices.migration
  | .transferLifecycle => OwnedInvoices.migration
  | .ownedInvoices => .refl OwnedInvoices.schema

/-! ### What an upgrade leaves -/

/-- The draft has one owned row, with its tag and the source of its batch. -/
def HasOwner (db : Database Row) (d : InvoiceDraftRow) : Prop :=
  ∃ o : OwnedInvoiceRow,
    (db .ownedInvoices).filter (fun o' : OwnedInvoiceRow => o'.draftId = some d.id) = [o] ∧
      o.tag = d.tag ∧ (o.source = "smoke" ↔ d.batchId = "sandbox-smoke")

/-- An owned row of the draft is the only one. -/
theorem hasOwner_of_mem {db : Database Row} (hc : metadata.Consistent db) {d : InvoiceDraftRow}
    {o : OwnedInvoiceRow} (ho : o ∈ db .ownedInvoices) (hdraft : o.draftId = some d.id)
    (htag : o.tag = d.tag) (hsource : o.source = "smoke" ↔ d.batchId = "sandbox-smoke") :
    HasOwner db d := by
  have hone : (db .ownedInvoices).filter
      (fun o' : OwnedInvoiceRow => o'.draftId = some d.id) = [o] := by
    refine (hc .ownedInvoices).filter_eq_singleton (fun a b ha hb => ?_) ho (by simpa using hdraft)
    have hsame : a.draftId = some d.id ∧ b.draftId = some d.id :=
      ⟨by simpa using ha, by simpa using hb⟩
    simp [metadata, DatabaseSchema.uniqueConflict, hsame]
  exact ⟨o, hone, htag, hsource⟩

theorem selected_source (d : InvoiceDraftRow) :
    (OwnedInvoices.selected d).source = "smoke" ↔ d.batchId = "sandbox-smoke" := by
  unfold OwnedInvoices.selected
  split_ifs with hsmoke
  · exact iff_of_true rfl hsmoke
  · have hother : "trial" ≠ "smoke" := by decide
    exact iff_of_false hother hsmoke

/-- The database `db` of revision `v` became this one. -/
structure Upgraded (v : Revision) (db : Database v.Row) (db' : Database Row) : Prop where
  intact : Intact metadata db'
  undone : (toHead v).downgrade db' = db
  owners : v ≠ .ownedInvoices → ∀ d ∈ db' .invoiceDrafts, HasOwner db' d
  bound : v ≠ .ownedInvoices → ∀ o ∈ db' .ownedInvoices, ∃ d ∈ db' .invoiceDrafts,
    o.draftId = some d.id ∧ o.providerInvoiceId = d.providerInvoiceId
  due : v = .initial → ∀ d ∈ db' .invoiceDrafts, d.nextAttemptAt = d.updatedAt

section
variable {v : Revision} {db : Database v.Row} {db' : Database Row}

/-- The last revision was applied to an intact database, unless there was nothing to do. -/
theorem toHead_last (h : Intact v.schema db) (hv : v ≠ .ownedInvoices)
    (hup : (toHead v).upgrade db = some db') :
    ∃ old, Intact TransferLifecycle.schema old ∧
      OwnedInvoices.migration.upgrade old = some db' := by
  cases v with
  | initial =>
      obtain ⟨db₁, hdb₁, hrest⟩ := Migration.trans_upgrade.mp hup
      obtain ⟨db₂, hdb₂, hlast⟩ := Migration.trans_upgrade.mp hrest
      exact ⟨db₂, TransferLifecycle.migration.intact_of_upgrade
        (InvoiceRetrySchedule.migration.intact_of_upgrade h hdb₁) hdb₂, hlast⟩
  | invoiceRetrySchedule =>
      obtain ⟨db₁, hdb₁, hlast⟩ := Migration.trans_upgrade.mp hup
      exact ⟨db₁, TransferLifecycle.migration.intact_of_upgrade h hdb₁, hlast⟩
  | transferLifecycle => exact ⟨db, h, hup⟩
  | ownedInvoices => exact absurd rfl hv

/-- The owned rows are those of the drafts. -/
theorem toHead_owned (h : Intact v.schema db) (hv : v ≠ .ownedInvoices)
    (hup : (toHead v).upgrade db = some db') :
    db' .ownedInvoices = (db' .invoiceDrafts).map OwnedInvoices.selected := by
  obtain ⟨old, hold, hlast⟩ := toHead_last h hv hup
  obtain rfl := Option.some.inj (hlast.symm.trans (OwnedInvoices.upgrade_eq hold))
  rfl

/-- A draft of the first revision is due since it was last written. -/
theorem initial_due {db : Database InitialRow} (hup : (toHead .initial).upgrade db = some db') :
    ∀ d ∈ db' .invoiceDrafts, d.nextAttemptAt = d.updatedAt := by
  obtain ⟨db₁, hdb₁, hrest⟩ := Migration.trans_upgrade.mp hup
  obtain ⟨db₂, hdb₂, hlast⟩ := Migration.trans_upgrade.mp hrest
  obtain rfl := Option.some.inj ((InvoiceRetrySchedule.upgrade_eq db).symm.trans hdb₁)
  obtain rfl := Option.some.inj hdb₂
  have hundone := OwnedInvoices.migration.undone _ db' hlast
  intro d hd
  have hd₂ : d ∈ OwnedInvoices.migration.downgrade db' InitialTable.invoiceDrafts := hd
  rw [hundone] at hd₂
  obtain ⟨d₁, hd₁, rfl⟩ := List.mem_map.mp hd₂
  obtain ⟨d₀, -, rfl⟩ := List.mem_map.mp hd₁
  rfl

theorem Upgraded.of_upgrade (h : Intact v.schema db) (hup : (toHead v).upgrade db = some db') :
    Upgraded v db db' := by
  have hintact : Intact metadata db' := by
    rw [← OwnedInvoices.schema_eq_metadata]
    exact (toHead v).intact_of_upgrade h hup
  refine ⟨hintact, (toHead v).undone db db' hup, fun hv d hd => ?_, fun hv o ho => ?_, ?_⟩
  · have hmem : OwnedInvoices.selected d ∈ db' .ownedInvoices := by
      rw [toHead_owned h hv hup]
      exact List.mem_map_of_mem hd
    exact hasOwner_of_mem hintact.consistent hmem rfl rfl (selected_source d)
  · rw [toHead_owned h hv hup] at ho
    obtain ⟨d, hd, rfl⟩ := List.mem_map.mp ho
    exact ⟨d, hd, rfl, rfl⟩
  · rintro rfl
    exact initial_due hup

end

/-! ### The stores on an upgraded database -/

section
variable {ι : Type} [DecidableEq ι] {ops : ι → StoreOp} {db : Database Row}
variable {c : Config ι (SessionOp Row) SessionOp.Answer StoreError Unit (Versions ι Row)}

/-- What is committed meets all constraints, and no row is lost. -/
theorem runs_intact (hdb : Intact metadata db)
    (h : Runs (system metadata fun i => (ops i).txn.discard) (.initial (untouched db)) c) :
    Intact metadata (committedRows c.state) ∧ columns.Leads db (committedRows c.state) := by
  have hops : ∀ i, ((ops i).txn.discard).Issues columns.Allows :=
    fun i => (store_allows (ops i)).bind fun _ => trivial
  have hcoherent : Coherent metadata c.state := by
    refine Evolution.runs_rel hops (fun s s' => Coherent metadata s → Coherent metadata s')
      (fun _ hs => hs) (fun _ _ _ hst htu hs => htu (hst hs)) (fun i op a s s' _ he hs => ?_)
      .refl h (Coherent.untouched hdb.consistent)
    exact perform_coherent hs he
  have hleads := Evolution.runs_leads hops .refl h
  simp only [Config.initial, committedRows_untouched] at hleads
  exact ⟨⟨hcoherent.committedRows,
    (Evolution.runs_rooted hops columns_keepsKeys hdb.referenced h).committed⟩, hleads⟩

/-- The tag, the draft and the source of an owned row are written once. -/
theorem fixed_owner {o o' : OwnedInvoiceRow}
    (h : fixedColumns .ownedInvoices o' = fixedColumns .ownedInvoices o) :
    o'.tag = o.tag ∧ o'.draftId = o.draftId ∧ o'.source = o.source := by
  have htag := congrArg OwnedInvoiceRow.tag h
  have hdraft := congrArg OwnedInvoiceRow.draftId h
  have hsource := congrArg OwnedInvoiceRow.source h
  exact ⟨htag, hdraft, hsource⟩

/-- An owned draft stays owned. -/
theorem HasOwner.leads {db' : Database Row} {d : InvoiceDraftRow} (h : HasOwner db d)
    (hleads : columns.Leads db db') (hc : metadata.Consistent db') : HasOwner db' d := by
  obtain ⟨o, hone, htag, hsource⟩ := h
  have hmem : o ∈ (db .ownedInvoices).filter
      (fun o' : OwnedInvoiceRow => o'.draftId = some d.id) := hone ▸ List.mem_singleton.mpr rfl
  obtain ⟨ho, hdraft⟩ := List.mem_filter.mp hmem
  obtain ⟨o', ho', hfixed, -⟩ := hleads.kept .ownedInvoices o ho
  obtain ⟨htag', hdraft', hsource'⟩ := fixed_owner hfixed
  exact hasOwner_of_mem hc ho' (hdraft'.trans (of_decide_eq_true hdraft)) (htag'.trans htag)
    (by rw [hsource', hsource])

end

/-- Every intact database of an earlier revision can be upgraded and taken back. What the
application does with it in any number of sessions at once keeps it intact and loses no row,
and every draft that was upgraded stays owned. -/
theorem upgraded_for_good (v : Revision) {db : Database v.Row} (h : Intact v.schema db) :
    ∃ db', (toHead v).upgrade db = some db' ∧ Upgraded v db db' ∧
      ∀ (ι : Type) [DecidableEq ι] (ops : ι → StoreOp)
        (c : Config ι (SessionOp Row) SessionOp.Answer StoreError Unit (Versions ι Row)),
        Runs (system metadata fun i => (ops i).txn.discard) (.initial (untouched db')) c →
        Intact metadata (committedRows c.state) ∧
        Intact v.schema ((toHead v).downgrade (committedRows c.state)) ∧
        (∀ t, ∀ r ∈ db' t, ∃ r' ∈ committedRows c.state t, fixedColumns t r' = fixedColumns t r) ∧
        (v ≠ .ownedInvoices → ∀ d ∈ db' .invoiceDrafts, HasOwner (committedRows c.state) d) := by
  obtain ⟨db', hup, -⟩ := (toHead v).upgraded db h
  have hupgraded := Upgraded.of_upgrade h hup
  refine ⟨db', hup, hupgraded, fun ι _ ops c hc => ?_⟩
  obtain ⟨hintact, hleads⟩ := runs_intact hupgraded.intact hc
  refine ⟨hintact, (toHead v).downgraded _ ?_, fun t r hr => ?_, fun hv d hd => ?_⟩
  · rw [OwnedInvoices.schema_eq_metadata]
    exact hintact
  · obtain ⟨r', hr', hfixed, -⟩ := hleads.kept t r hr
    exact ⟨r', hr', hfixed⟩
  · exact (hupgraded.owners hv d hd).leads hleads hintact.consistent

/-- A trial of the first revision, with a draft whose creation has an unknown result. -/
def firstTrial : Database InitialRow
  | .trialRuns => [⟨"r", .active, 0, seconds 86400, 0, none, some 1⟩]
  | .invoiceBatches => [⟨"b", "r", 0, 0, 8, .reconciling, none, 1, 0, none⟩]
  | .invoiceDrafts =>
      [{ id := "d", batchId := "b", ordinal := 0, payerName := "p", payerTaxId := "t"
         amount := 5000, tag := "trial-draft:d", status := .unknown, providerInvoiceId := none
         attempts := 1, reconcileAttempts := 0, lastErrorCode := some "unknown_error"
         createdAt := 0, updatedAt := 7 }]
  | .webhookEvents => []
  | .transferJobs => []

theorem firstTrial_intact : Intact Initial.schema firstTrial where
  consistent t := by cases t <;> decide
  referenced t := by
    cases t with
    | invoiceBatches => simp [firstTrial, Initial.schema, Initial.foreignKeys, Initial.primaryKey]
    | invoiceDrafts => simp [firstTrial, Initial.schema, Initial.foreignKeys, Initial.primaryKey]
    | _ => simp [firstTrial, Initial.schema, Initial.foreignKeys]

/-- The credit of the invoice of that draft. -/
def lateCredit : StoreOp :=
  .events (.record "j" (EventRecording.receivedRecord
    (.credited ⟨"e", "i", 5000, 50, "w", ["trial-draft:d"], "invoice", "credited"⟩) "hash" 9))

/-- The owner that the upgrade has made lets the credit queue a transfer. -/
theorem upgraded_for_good_firstTrial :
    ∃ (db' : Database Row) (c : Config (Fin 1) (SessionOp Row) SessionOp.Answer StoreError Unit
        (Versions (Fin 1) Row)),
      (toHead .initial).upgrade firstTrial = some db' ∧ Upgraded .initial firstTrial db' ∧
      (committedRows c.state .transferJobs).map TransferJobRow.invoiceId = ["i"] ∧
      Intact metadata (committedRows c.state) ∧
      ∀ d ∈ db' .invoiceDrafts, HasOwner (committedRows c.state) d := by
  have hends : ((toHead .initial).upgrade firstTrial).bind (fun db' =>
      (playAll (performIf metadata fun _ _ _ _ => True) (.initial (untouched db'))
        (inOrder (fun _ : Fin 1 => lateCredit.txn.discard) (List.replicate 8 0))).map fun c =>
          (committedRows c.state .transferJobs).map TransferJobRow.invoiceId) = some ["i"] := by
    decide +kernel
  obtain ⟨db', hup, hrest⟩ := Option.bind_eq_some_iff.mp hends
  obtain ⟨c, hplay, hjobs⟩ := Option.map_eq_some_iff.mp hrest
  obtain ⟨db'', hup', hupgraded, hlasts⟩ := upgraded_for_good .initial firstTrial_intact
  obtain rfl := Option.some.inj (hup.symm.trans hup')
  have hruns : Runs (system metadata fun _ : Fin 1 => lateCredit.txn.discard)
      (.initial (untouched db')) c := runs_of_restricted (inOrder_runs hplay)
  obtain ⟨hintact, -, -, howners⟩ := hlasts (Fin 1) (fun _ => lateCredit) c hruns
  exact ⟨db', c, hup, hupgraded, hjobs, hintact, howners (by decide)⟩

end StarkbankTrial.SchemaMigrations
