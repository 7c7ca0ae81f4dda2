import StarkbankTrial.Domain
import StarkbankTrial.RelationalTables

/-!
# The database schema of the trial

Six tables with their primary keys, unique constraints, checks and references.
A null never clashes in a unique constraint. Column widths, indexes and the JSON
column `metadata`, which no statement reads or writes, are left out.
-/
namespace StarkbankTrial.DatabaseSchema
open Domain InteractivePrograms RelationalTables

structure TrialRunRow where
  id : TrialRunId
  status : TrialStatus
  startedAt : ℤ
  endsAt : ℤ
  createdAt : ℤ
  completedAt : Option ℤ
  activeMarker : Option ℤ
deriving Repr, DecidableEq

structure InvoiceBatchRow where
  id : BatchId
  runId : TrialRunId
  slotIndex : ℤ
  scheduledAt : ℤ
  targetCount : ℤ
  status : BatchStatus
  leaseUntil : Option ℤ
  attempts : ℕ
  createdAt : ℤ
  completedAt : Option ℤ
deriving Repr, DecidableEq

structure InvoiceDraftRow where
  id : DraftId
  batchId : BatchId
  ordinal : ℤ
  payerName : String
  payerTaxId : String
  amount : ℤ
  tag : String
  status : DraftStatus
  providerInvoiceId : Option InvoiceId
  attempts : ℕ
  reconcileAttempts : ℕ
  lastErrorCode : Option String
  createdAt : ℤ
  updatedAt : ℤ
  nextAttemptAt : ℤ
deriving Repr, DecidableEq

structure OwnedInvoiceRow where
  tag : String
  providerInvoiceId : Option InvoiceId
  source : String
  draftId : Option DraftId
  createdAt : ℤ
  updatedAt : ℤ
deriving Repr, DecidableEq

structure WebhookEventRow where
  id : EventId
  subscription : String
  logType : String
  invoiceId : Option InvoiceId
  transferId : Option TransferId
  workspaceId : String
  payloadHash : String
  outcome : EventWriteResult
  receivedAt : ℤ
deriving Repr, DecidableEq

structure TransferJobRow where
  id : TransferJobId
  eventId : EventId
  invoiceId : InvoiceId
  amount : ℤ
  fee : ℤ
  netAmount : ℤ
  externalId : ExternalId
  tag : String
  status : TransferStatus
  attempts : ℕ
  nextAttemptAt : ℤ
  leaseUntil : Option ℤ
  providerTransferId : Option TransferId
  providerStatus : Option String
  providerLogType : Option String
  providerStatusUpdatedAt : Option ℤ
  lastErrorCode : Option String
  createdAt : ℤ
  updatedAt : ℤ
deriving Repr, DecidableEq

inductive Table where
  | trialRuns | invoiceBatches | invoiceDrafts | ownedInvoices | webhookEvents | transferJobs
deriving Repr, DecidableEq

abbrev Row : Table → Type
  | .trialRuns => TrialRunRow
  | .invoiceBatches => InvoiceBatchRow
  | .invoiceDrafts => InvoiceDraftRow
  | .ownedInvoices => OwnedInvoiceRow
  | .webhookEvents => WebhookEventRow
  | .transferJobs => TransferJobRow

/-- The comparison of a unique constraint on a nullable column. -/
def sameNonNull {A : Type} [DecidableEq A] : Option A → Option A → Bool
  | some a, some b => a == b
  | _, _ => false

@[simp] theorem sameNonNull_iff {A : Type} [DecidableEq A] {a b : Option A} :
    sameNonNull a b = true ↔ ∃ x, a = some x ∧ b = some x := by
  unfold sameNonNull
  split
  · next a b =>
      simp only [beq_iff_eq, Option.some.injEq]
      constructor
      · intro h
        exact ⟨a, rfl, h.symm⟩
      · rintro ⟨x, rfl, rfl⟩
        rfl
  · next h =>
      simp only [Bool.false_eq_true, false_iff]
      rintro ⟨x, rfl, rfl⟩
      exact h x x rfl rfl

theorem sameNonNull_comm {A : Type} [DecidableEq A] (a b : Option A) :
    sameNonNull a b = sameNonNull b a := by
  rw [Bool.eq_iff_iff, sameNonNull_iff, sameNonNull_iff]
  exact exists_congr fun x => and_comm

def primaryKey : (t : Table) → Row t → String
  | .trialRuns, r => r.id
  | .invoiceBatches, r => r.id
  | .invoiceDrafts, r => r.id
  | .ownedInvoices, r => r.tag
  | .webhookEvents, r => r.id
  | .transferJobs, r => r.id

/-- Some unique constraint of the table, its primary key included, forbids both rows. -/
def uniqueConflict : (t : Table) → Row t → Row t → Bool
  | .trialRuns, a, b => a.id == b.id || sameNonNull a.activeMarker b.activeMarker
  | .invoiceBatches, a, b => a.id == b.id || (a.runId == b.runId && a.slotIndex == b.slotIndex)
  | .invoiceDrafts, a, b =>
      a.id == b.id || a.tag == b.tag || (a.batchId == b.batchId && a.ordinal == b.ordinal) ||
        sameNonNull a.providerInvoiceId b.providerInvoiceId
  | .ownedInvoices, a, b =>
      a.tag == b.tag || sameNonNull a.providerInvoiceId b.providerInvoiceId ||
        sameNonNull a.draftId b.draftId
  | .webhookEvents, a, b => a.id == b.id
  | .transferJobs, a, b =>
      a.id == b.id || a.eventId == b.eventId || a.invoiceId == b.invoiceId ||
        a.externalId == b.externalId || a.tag == b.tag ||
        sameNonNull a.providerTransferId b.providerTransferId

def rowCheck : (t : Table) → Row t → Bool
  | .trialRuns, r => r.activeMarker == none || r.activeMarker == some 1
  | .invoiceBatches, r =>
      (8 ≤ r.targetCount && r.targetCount ≤ 12) && (0 ≤ r.slotIndex && r.slotIndex ≤ 7)
  | .invoiceDrafts, r => 0 < r.amount
  | .ownedInvoices, r => r.source == "trial" || r.source == "smoke"
  | .webhookEvents, _ => true
  | .transferJobs, r => 0 < r.amount && 0 ≤ r.fee && 0 < r.netAmount

def foreignKeys : (t : Table) → Row t → List (Table × String)
  | .trialRuns, _ => []
  | .invoiceBatches, r => [(.trialRuns, r.runId)]
  | .invoiceDrafts, r => [(.invoiceBatches, r.batchId)]
  | .ownedInvoices, r => (r.draftId.map fun id => (.invoiceDrafts, id)).toList
  | .webhookEvents, _ => []
  | .transferJobs, r => [(.webhookEvents, r.eventId)]

def metadata : Schema Row String where
  key := primaryKey
  clash := uniqueConflict
  check := rowCheck
  refs := foreignKeys
  clash_comm := by
    intro t a b
    cases t with
    | trialRuns => simp only [uniqueConflict, sameNonNull_comm, Bool.beq_comm]
    | invoiceBatches => simp only [uniqueConflict, Bool.beq_comm]
    | invoiceDrafts => simp only [uniqueConflict, sameNonNull_comm, Bool.beq_comm]
    | ownedInvoices => simp only [uniqueConflict, sameNonNull_comm, Bool.beq_comm]
    | webhookEvents => simp only [uniqueConflict, Bool.beq_comm]
    | transferJobs => simp only [uniqueConflict, sameNonNull_comm, Bool.beq_comm]
  clash_of_key := by
    intro t a b h
    cases t <;> simp only [primaryKey] at h <;> simp [uniqueConflict, h]

def Table.all : List Table :=
  [.trialRuns, .invoiceBatches, .invoiceDrafts, .ownedInvoices, .webhookEvents, .transferJobs]

instance (db : Database Row) : Decidable (metadata.Consistent db) :=
  decidable_of_iff (∀ t ∈ Table.all, metadata.Valid t (db t))
    ⟨fun h t => h t (by cases t <;> decide), fun h t _ => h t⟩

/-! ### Transactions on this schema -/

inductive StoreError where
  | integrityError
  | noResultFound
  | invoiceOwnershipConflict (tag : String) (providerInvoiceId : InvoiceId)
deriving Repr, DecidableEq

abbrev Txn (A : Type) := Transaction Row StoreError A

/-- Outside a savepoint a broken constraint raises and ends the transaction. -/
def insertRows (t : Table) (rows : List (Row t)) : Txn Unit := do
  match ← Transaction.insert t rows with
  | true => .done ()
  | false => .raise .integrityError

def updateRows (t : Table) (condition : Row t → Bool) (assign : Row t → Row t) : Txn ℕ := do
  match ← Transaction.update t condition assign with
  | some n => .done n
  | none => .raise .integrityError

/-- `scalar_one()` and `one()`: the keys here are unique, so a second row cannot appear. -/
def one {R : Type} (rows : List R) : Txn R :=
  match rows with
  | r :: _ => .done r
  | [] => .raise .noResultFound

section
variable {A : Type} {allowed : Statement Row → Prop} {t : Table}

@[simp] theorem issues_insertRows_bind {rows : List (Row t)} {f : Unit → Txn A} :
    (insertRows t rows >>= f).Issues allowed ↔
      allowed (.insert t rows) ∧ (f ()).Issues allowed := by
  simp only [insertRows, Transaction.insert_bind, Program.call_bind, Program.issues_call,
    Bool.forall_bool, Program.raise_bind, Program.done_bind, Program.issues_raise, true_and]

@[simp] theorem issues_updateRows_bind {condition : Row t → Bool} {assign : Row t → Row t}
    {f : ℕ → Txn A} : (updateRows t condition assign >>= f).Issues allowed ↔
      allowed (.update t condition assign) ∧ ∀ n, (f n).Issues allowed := by
  simp only [updateRows, Transaction.update_bind, Program.call_bind, Program.issues_call,
    Option.forall, Program.raise_bind, Program.done_bind, Program.issues_raise, true_and]

@[simp] theorem issues_insertRows {rows : List (Row t)} :
    (insertRows t rows).Issues allowed ↔ allowed (.insert t rows) := by
  simp only [insertRows, Transaction.insert_bind, Program.issues_call, Bool.forall_bool,
    Program.issues_done, Program.issues_raise, and_true]

@[simp] theorem issues_one_bind {R : Type} {rows : List R} {f : R → Txn A} :
    (one rows >>= f).Issues allowed ↔ ∀ r ∈ rows.head?, (f r).Issues allowed := by
  cases rows <;> simp [one]

@[simp] theorem raises_updateRows_bind {raised : StoreError → Prop} {condition : Row t → Bool}
    {assign : Row t → Row t} {f : ℕ → Txn A} :
    (updateRows t condition assign >>= f).Raises raised ↔
      raised .integrityError ∧ ∀ n, (f n).Raises raised := by
  simp only [updateRows, Transaction.update_bind, Program.call_bind, Program.raises_call,
    Option.forall, Program.raise_bind, Program.done_bind, Program.raises_raise]

open Program hiding atomically

variable {db : Database Row} {post : A → Database Row → Prop}

theorem establishes_insertRows {rows : List (Row t)} {f : Unit → Txn A}
    (h : ∀ db', metadata.insertRows t rows db = some db' → db' = db.set t (db t ++ rows) →
      Establishes (respond metadata) (f ()) post db') :
    Establishes (respond metadata) (insertRows t rows >>= f) post db := by
  simp only [insertRows, Transaction.insert_bind, Program.call_bind]
  exact establishes_insert (by simpa using h) (by simp)

theorem establishes_updateRows {condition : Row t → Bool} {assign : Row t → Row t}
    {f : ℕ → Txn A}
    (h : metadata.Valid t (assignWhere condition assign (db t)) →
      Establishes (respond metadata) (f ((db t).filter condition).length) post
        (db.set t (assignWhere condition assign (db t)))) :
    Establishes (respond metadata) (updateRows t condition assign >>= f) post db := by
  simp only [updateRows, Transaction.update_bind, Program.call_bind]
  exact establishes_update (by simpa using h) (by simp)

theorem establishes_one {R : Type} {rows : List R} {f : R → Txn A}
    (h : ∀ r ∈ rows.head?, Establishes (respond metadata) (f r) post db) :
    Establishes (respond metadata) (one rows >>= f) post db := by
  cases rows with
  | nil => simp [one]
  | cons r rows => simpa [one] using h

/-- A transaction of one update. -/
theorem atomically_updateRows {condition : Row t → Bool} {assign : Row t → Row t}
    {value : ℕ → A} : atomically metadata (updateRows t condition assign >>= fun n =>
      pure (value n)) db =
    if metadata.Valid t (assignWhere condition assign (db t)) then
      (.ok (value ((db t).filter condition).length),
        db.set t (assignWhere condition assign (db t)))
    else (.error .integrityError, db) := by
  simp only [atomically, Program.atomically, updateRows, Transaction.update_bind,
    Program.call_bind, run_call, respond]
  split_ifs with hv <;> simp

end

def emptyDatabase : Database Row := fun _ => []

theorem emptyDatabase_consistent : metadata.Consistent emptyDatabase :=
  fun t => by cases t <;> simp [Schema.Valid, emptyDatabase]

end StarkbankTrial.DatabaseSchema
