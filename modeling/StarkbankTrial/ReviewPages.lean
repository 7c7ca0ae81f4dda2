import Mathlib.Data.String.Basic
import StarkbankTrial.ReviewStore

/-!
# Reading a review list to its end

A reader follows `next_cursor` from the first page while the tables may grow. Every
list is a keyset reading of the rows that match: the joins neither drop nor repeat a
row, the count statement counts the same rows, and the text of a cursor keeps its key.
-/
namespace StarkbankTrial.ReviewPages
open Domain RelationalTables DatabaseSchema SqlSelections KeysetPages ReviewCursors ReviewStore
open IsoDates

/-! ### The five lists -/

inductive ReviewList where
  | trials | batches | invoices | transfers | webhookEvents
deriving Repr, DecidableEq

namespace ReviewList

/-- The table whose rows are listed. -/
def table : ReviewList → Table
  | .trials => .trialRuns
  | .batches => .invoiceBatches
  | .invoices => .invoiceDrafts
  | .transfers => .transferJobs
  | .webhookEvents => .webhookEvents

abbrev Joined : ReviewList → Type
  | .trials => TrialRunRow
  | .batches => InvoiceBatchRow × TrialRunRow
  | .invoices => InvoiceDraftRow × InvoiceBatchRow
  | .transfers => JoinedJob
  | .webhookEvents => WebhookEventRow

abbrev Payload : ReviewList → Type
  | .trials => TrialPayload
  | .batches => BatchPayload
  | .invoices => InvoicePayload
  | .transfers => TransferPayload
  | .webhookEvents => EventPayload

def select (db : Database Row) (query : ReviewQuery) :
    (list : ReviewList) → ReviewSelect list.Joined list.Payload
  | .trials => trialsSelect db query
  | .batches => batchesSelect db query
  | .invoices => invoicesSelect db query
  | .transfers => transfersSelect db query
  | .webhookEvents => eventsSelect db query

/-- The call behind the list's route. -/
def load (collation : LinearOrder String) (db : Database Row) (query : ReviewQuery) :
    (list : ReviewList) → Except ReviewError (ReviewPage list.Payload)
  | .trials => ReviewStore.trials collation db query
  | .batches => ReviewStore.batches collation db query
  | .invoices => ReviewStore.invoices collation db query
  | .transfers => ReviewStore.transfers collation db query
  | .webhookEvents => ReviewStore.events collation db query

/-- The listed row of a joined row. -/
def entry : (list : ReviewList) → list.Joined → Row list.table
  | .trials, j => j
  | .batches, j => j.1
  | .invoices, j => j.1
  | .transfers, j => j.1.1
  | .webhookEvents, j => j

def timestamp : (list : ReviewList) → Row list.table → ℤ
  | .trials, r => TrialRunRow.createdAt r
  | .batches, r => InvoiceBatchRow.scheduledAt r
  | .invoices, r => InvoiceDraftRow.createdAt r
  | .transfers, r => TransferJobRow.createdAt r
  | .webhookEvents, r => WebhookEventRow.receivedAt r

/-- The identifier that an item shows. -/
def itemId : (list : ReviewList) → list.Payload → String
  | .trials, p => TrialPayload.id p
  | .batches, p => BatchPayload.id p
  | .invoices, p => InvoicePayload.id p
  | .transfers, p => TransferPayload.id p
  | .webhookEvents, p => EventPayload.id p

/-- The timestamp that an item shows, of those that it has the one that the list is ordered by. -/
def itemTimestamp : (list : ReviewList) → list.Payload → Option String
  | .trials, p => TrialPayload.createdAt p
  | .batches, p => BatchPayload.scheduledAt p
  | .invoices, p => InvoicePayload.createdAt p
  | .transfers, p => TransferPayload.createdAt p
  | .webhookEvents, p => EventPayload.receivedAt p

variable (list : ReviewList)

/-- The order of the list is descending in this key. -/
def key (collation : LinearOrder String) (r : Row list.table) : ReviewKey collation :=
  reviewKey collation (list.timestamp r) (primaryKey list.table r)

/-- The joins pair the row with something that the filters of the list select. -/
def Matches (db : Database Row) (query : ReviewQuery) (r : Row list.table) : Prop :=
  ∃ j ∈ (list.select db query).source, list.entry j = r ∧
    ∀ c ∈ (list.select db query).conditions, holds (c j) = true

instance (t : Table) : DecidableEq (Row t) := by
  cases t <;> (unfold Row; infer_instance)

instance (db : Database Row) (query : ReviewQuery) (r : Row list.table) :
    Decidable (list.Matches db query r) := inferInstanceAs (Decidable (∃ j ∈ _, _))

def matching (db : Database Row) (query : ReviewQuery) : List (Row list.table) :=
  (db list.table).filter fun r => list.Matches db query r

/-- The item is the payload of a joined row of this row, and shows its id and timestamp. -/
structure ShowsRow (db : Database Row) (query : ReviewQuery) (r : Row list.table)
    (item : list.Payload) : Prop where
  id : list.itemId item = primaryKey list.table r
  timestamp : list.itemTimestamp item = iso (some (utc (list.timestamp r)))
  payload : ∃ j ∈ (list.select db query).source, list.entry j = r ∧
    (list.select db query).mapper j = item

/-- The items show these rows, one by one. -/
def Shows (db : Database Row) (query : ReviewQuery) (rows : List (Row list.table))
    (items : List list.Payload) : Prop :=
  List.Forall₂ (list.ShowsRow db query) rows items

end ReviewList

/-! ### The constraints of the schema -/

/-- The `DateTime` columns of a row that are not null. -/
def datetimes : (t : Table) → Row t → List ℤ
  | .trialRuns, r => [r.startedAt, r.endsAt, r.createdAt] ++ r.completedAt.toList
  | .invoiceBatches, r =>
      [r.scheduledAt, r.createdAt] ++ r.leaseUntil.toList ++ r.completedAt.toList
  | .invoiceDrafts, r => [r.createdAt, r.updatedAt, r.nextAttemptAt]
  | .ownedInvoices, r => [r.createdAt, r.updatedAt]
  | .webhookEvents, r => [r.receivedAt]
  | .transferJobs, r => [r.nextAttemptAt, r.createdAt, r.updatedAt] ++ r.leaseUntil.toList ++
      r.providerStatusUpdatedAt.toList

/-- Keys, unique constraints and checks hold, references exist, and a `DateTime` column
holds a `datetime`. -/
structure Constrained (db : Database Row) : Prop where
  consistent : metadata.Consistent db
  references : ∀ t, ∀ r ∈ db t, ∀ ref ∈ foreignKeys t r,
    ∃ r' ∈ db ref.1, primaryKey ref.1 r' = ref.2
  datetimes : ∀ t, ∀ r ∈ db t, ∀ v ∈ datetimes t r, datetimeMin ≤ v ∧ v ≤ datetimeMax

instance (db : Database Row) : Decidable (Constrained db) :=
  decidable_of_iff (metadata.Consistent db ∧
    (∀ t ∈ Table.all, ∀ r ∈ db t, ∀ ref ∈ foreignKeys t r,
      ∃ r' ∈ db ref.1, primaryKey ref.1 r' = ref.2) ∧
    ∀ t ∈ Table.all, ∀ r ∈ db t, ∀ v ∈ datetimes t r, datetimeMin ≤ v ∧ v ≤ datetimeMax)
    ⟨fun h => ⟨h.1, fun t => h.2.1 t (by cases t <;> decide),
      fun t => h.2.2 t (by cases t <;> decide)⟩,
      fun h => ⟨h.consistent, fun t _ => h.references t, fun t _ => h.datetimes t⟩⟩

section
variable {db : Database Row} {query : ReviewQuery} {list : ReviewList}

theorem Constrained.eq_of_id (h : Constrained db) {t : Table} {a b : Row t} (ha : a ∈ db t)
    (hb : b ∈ db t) (hkey : primaryKey t a = primaryKey t b) : a = b :=
  (h.consistent t).eq_of_key ha hb hkey

/-- Rows with one text in a unique column are one row, so a join on it finds at most one. -/
theorem Constrained.partners_le_one (h : Constrained db) {A : Type} {t : Table}
    {on : A → Row t → Truth} {a : A}
    (hclash : ∀ b b', holds (on a b) = true → holds (on a b') = true →
      uniqueConflict t b b' = true) : (partnersOf on (db t) a).length ≤ 1 := by
  refine partnersOf_le_one ((h.consistent t).2.imp ?_)
  intro b b' hconflict hb
  cases hb' : holds (on a b') with
  | false => rfl
  | true =>
      have hc := hclash b b' hb hb'
      exact Bool.noConfusion (hconflict.symm.trans hc)

theorem timestamp_range (h : Constrained db) {r : Row list.table} (hr : r ∈ db list.table) :
    datetimeMin ≤ list.timestamp r ∧ list.timestamp r ≤ datetimeMax := by
  refine h.datetimes list.table r hr _ ?_
  cases list <;> simp [datetimes, ReviewList.timestamp, ReviewList.table]

/-! ### The joins -/

theorem conflict_of_id {t : Table} {a b : Row t} (h : primaryKey t a = primaryKey t b) :
    uniqueConflict t a b = true := metadata.clash_of_key t a b h

/-- A reference finds its one row. -/
theorem Constrained.partners_of_reference (h : Constrained db) {A : Type} {t : Table}
    {on : A → Row t → Truth} {a : A} {x : String}
    (hon : ∀ b, holds (on a b) = true ↔ primaryKey t b = x)
    (href : ∃ b ∈ db t, primaryKey t b = x) : (partnersOf on (db t) a).length = 1 := by
  refine le_antisymm (h.partners_le_one fun b b' hb hb' => ?_) ?_
  · exact conflict_of_id (((hon b).mp hb).trans ((hon b').mp hb').symm)
  · obtain ⟨b, hb, hid⟩ := href
    exact List.length_pos_of_mem (mem_partnersOf.mpr ⟨hb, (hon b).mpr hid⟩)

theorem batchesSelect_entries (h : Constrained db) (query : ReviewQuery) :
    (batchesSelect db query).source.map Prod.fst = db .invoiceBatches := by
  refine innerJoin_fst fun batch hb =>
    h.partners_of_reference (t := .trialRuns) (x := batch.runId) ?_ ?_
  · intro trial
    simp [equals, primaryKey]
  · exact h.references .invoiceBatches batch hb (.trialRuns, batch.runId) (by simp [foreignKeys])

theorem invoicesSelect_entries (h : Constrained db) (query : ReviewQuery) :
    (invoicesSelect db query).source.map Prod.fst = db .invoiceDrafts := by
  refine innerJoin_fst fun draft hd =>
    h.partners_of_reference (t := .invoiceBatches) (x := draft.batchId) ?_ ?_
  · intro batch
    simp [equals, primaryKey]
  · exact h.references .invoiceDrafts draft hd (.invoiceBatches, draft.batchId)
      (by simp [foreignKeys])

/-- A provider invoice belongs to one draft at most, so a job is not listed twice. -/
theorem transfersSelect_entries (h : Constrained db) (query : ReviewQuery) :
    (transfersSelect db query).source.map (fun j => j.1.1) = db .transferJobs := by
  have hbatch : ∀ (j : TransferJobRow × Option InvoiceDraftRow),
      (partnersOf (fun (j : TransferJobRow × Option InvoiceDraftRow) (batch : InvoiceBatchRow) =>
        equals (some batch.id) (j.2.map InvoiceDraftRow.batchId))
        (db .invoiceBatches) j).length ≤ 1 := by
    intro j
    refine h.partners_le_one (t := .invoiceBatches) fun b b' hb hb' => conflict_of_id ?_
    obtain ⟨x, hx, hd⟩ := holds_equals.mp hb
    obtain ⟨x', hx', hd'⟩ := holds_equals.mp hb'
    have hxx : x = x' := Option.some.inj (hd.symm.trans hd')
    exact Option.some.inj (hx.trans (hxx ▸ hx'.symm))
  have hdraft : ∀ (job : TransferJobRow),
      (partnersOf (fun (job : TransferJobRow) (draft : InvoiceDraftRow) =>
        equals draft.providerInvoiceId (some job.invoiceId)) (db .invoiceDrafts) job).length ≤
        1 := by
    intro job
    refine h.partners_le_one (t := .invoiceDrafts) fun d d' hd hd' => ?_
    obtain ⟨x, hx, hj⟩ := holds_equals.mp hd
    obtain ⟨x', hx', hj'⟩ := holds_equals.mp hd'
    have hxx : x = x' := Option.some.inj (hj.symm.trans hj')
    have hsame : sameNonNull d.providerInvoiceId d'.providerInvoiceId = true :=
      sameNonNull_iff.mpr ⟨x, hx, hxx ▸ hx'⟩
    simp [uniqueConflict, hsame]
  calc (transfersSelect db query).source.map (fun j => j.1.1)
      = ((transfersJoin db).map Prod.fst).map Prod.fst := (List.map_map ..).symm
    _ = (outerJoin _ (db .transferJobs) (db .invoiceDrafts)).map Prod.fst :=
        congrArg (List.map Prod.fst) (outerJoin_fst fun j _ => hbatch j)
    _ = db .transferJobs := outerJoin_fst fun job _ => hdraft job

/-- The joins of a list neither drop nor repeat a row of its table. -/
theorem select_entries (h : Constrained db) (query : ReviewQuery) :
    (list.select db query).source.map list.entry = db list.table := by
  cases list with
  | trials => exact List.map_id _
  | batches => exact batchesSelect_entries h query
  | invoices => exact invoicesSelect_entries h query
  | transfers => exact transfersSelect_entries h query
  | webhookEvents => exact List.map_id _

/-! ### Statement and count -/

theorem rows_nodup (h : Constrained db) : (db list.table).Nodup := (h.consistent _).nodup

/-- The statement selects the rows that match, in the order of the table. -/
theorem statement_entries (h : Constrained db) :
    (list.select db query).statement.map list.entry = list.matching db query := by
  have hentries : (list.select db query).source.map list.entry = db list.table :=
    select_entries h query
  have hinj := List.inj_on_of_nodup_map (hentries ▸ rows_nodup h)
  rw [ReviewList.matching, ← hentries, List.filter_map]
  refine congrArg (List.map list.entry) (List.filter_congr fun j hj => ?_)
  rw [holds_conjunction, List.all_map, Bool.eq_iff_iff, List.all_eq_true, Function.comp_apply,
    decide_eq_true_eq]
  constructor
  · intro hc
    exact ⟨j, hj, rfl, hc⟩
  · rintro ⟨j', hj', hentry, hc⟩
    exact hinj hj' hj hentry ▸ hc

theorem select_count (h : Constrained db) :
    (list.select db query).count = (list.matching db query).length := by
  rw [← statement_entries h, List.length_map]
  cases list with
  | trials => rfl
  | batches =>
      change (selectWhere (batchesConditions query) (db .invoiceBatches)).length = _
      rw [← batchesSelect_entries h query, ← selectWhere_map, List.length_map]
      rfl
  | invoices => rfl
  | transfers =>
      change (if transferFilters query = [] then (db .transferJobs).length
        else (selectWhere (transferFilters query) (transfersJoin db)).length) =
          (selectWhere (transferFilters query) (transfersJoin db)).length
      split_ifs with hnone
      · rw [hnone, selectWhere_nil, ← transfersSelect_entries h query, List.length_map]
        rfl
      · rfl
  | webhookEvents => rfl

theorem select_key (collation : LinearOrder String) :
    (list.select db query).key collation = list.key collation ∘ list.entry := by
  cases list <;> rfl

/-- The payload of a joined row shows its listed row. -/
theorem mapper_shows {j : list.Joined} (hj : j ∈ (list.select db query).source) :
    list.ShowsRow db query (list.entry j) ((list.select db query).mapper j) where
  id := by cases list <;> rfl
  timestamp := by cases list <;> rfl
  payload := ⟨j, hj, rfl, rfl⟩

theorem matching_keyed (collation : LinearOrder String) (h : Constrained db) :
    Keyed (list.key collation) (list.matching db query) := by
  refine List.Nodup.map_on ?_ ((rows_nodup h).filter _)
  intro a ha b hb hkey
  exact h.eq_of_id (List.mem_of_mem_filter ha) (List.mem_of_mem_filter hb)
    (congrArg (fun k => (ofLex k).2) hkey)

/-! ### One page -/

variable {collation : LinearOrder String}

def keyTime (c : ReviewKey collation) : ℤ := (ofLex c).1

def keyId (c : ReviewKey collation) : String := (ofLex c).2

/-- The text of a key. -/
def cursorText (c : ReviewKey collation) : String := cursor (utc (keyTime c)) (keyId c)

abbrev Readable (c : ReviewKey collation) : Prop := Representable (utc (keyTime c))

theorem page_eq {J P : Type} (select : ReviewSelect J P) (found : List J) (limit : ℕ) :
    page (found.map select.mapper) select.count limit
      (found.map fun j => (utc (select.timestamp j), select.identifier j)) =
    { items := (found.take limit).map select.mapper
      nextCursor := (if limit < found.length then
        (found[limit - 1]?).map (select.key collation) else none).map cursorText
      total := select.count } := by
  simp only [page, List.length_map, ← List.map_take, List.getElem?_map, Option.map_map]
  split_ifs
  · rw [Option.map_map]
    rfl
  · rfl

/-- The condition that a cursor adds keeps the rows behind its key. -/
theorem behind_eq {J P : Type} (select : ReviewSelect J P) (rows : List J)
    (c : ReviewKey collation) :
    (rows.filter fun j => select.timestamp j < keyTime c ||
      (select.timestamp j = keyTime c && collation.lt (select.identifier j) (keyId c))) =
    behind (select.key collation) (some c) rows := by
  refine List.filter_congr fun j _ => ?_
  rw [Bool.eq_iff_iff]
  simp only [Option.all_some, decide_eq_true_eq, Bool.or_eq_true, Bool.and_eq_true]
  have hlex : select.key collation j < c ↔ _ := Prod.Lex.lt_iff
  exact hlex.symm

/-- A page of any list is a fetch behind the key that the cursor text stands for. -/
theorem mappingPage_eq {J P : Type} (select : ReviewSelect J P)
    {c : Option (ReviewKey collation)} (hc : ∀ d ∈ c, Readable d) :
    mappingPage collation select { query with cursor := c.map cursorText } =
      .ok { items := (fetch (select.key collation) query.limit select.statement c).items.map
              select.mapper
            nextCursor :=
              (fetch (select.key collation) query.limit select.statement c).next.map cursorText
            total := select.count } := by
  cases c with
  | none =>
      have hall : behind (select.key collation) none select.statement = select.statement := by
        simp [behind]
      simp only [mappingPage, Option.map_none, decodeCursor, fetch, hall]
      exact congrArg Except.ok (page_eq select _ _)
  | some c =>
      have hdecode := decodeCursor_cursor (hc c rfl) (keyId c)
      simp only [mappingPage, Option.map_some, cursorText, hdecode, fetch, ← behind_eq]
      simp only [Bind.bind, Except.bind, utc_instant]
      exact congrArg Except.ok (page_eq select _ _)

theorem load_eq (c : Option String) : list.load collation db { query with cursor := c } =
    mappingPage collation (list.select db query) { query with cursor := c } := by
  cases list <;> rfl

/-- A page against the rows that the list would show behind the same key. -/
structure Related (list : ReviewList) (db : Database Row) (query : ReviewQuery)
    (p : Page (Row list.table) (ReviewKey collation))
    (answer : Except ReviewError (ReviewPage list.Payload)) (page : ReviewPage list.Payload) :
    Prop where
  answered : answer = .ok page
  items : list.Shows db query p.items page.items
  nextCursor : page.nextCursor = p.next.map cursorText
  total : page.total = (list.matching db query).length

theorem load_related (h : Constrained db) {c : Option (ReviewKey collation)}
    (hc : ∀ d ∈ c, Readable d) :
    ∃ page, Related list db query
      (fetch (list.key collation) query.limit (list.matching db query) c)
      (list.load collation db { query with cursor := c.map cursorText }) page := by
  refine ⟨{
    items := (fetch ((list.select db query).key collation) query.limit
      (list.select db query).statement c).items.map (list.select db query).mapper
    nextCursor := (fetch ((list.select db query).key collation) query.limit
      (list.select db query).statement c).next.map cursorText
    total := (list.select db query).count }, ?_⟩
  rw [← statement_entries h, fetch_map, ← select_key]
  exact {
    answered := (load_eq _).trans (mappingPage_eq _ hc)
    items := by
      rw [ReviewList.Shows, List.forall₂_map_left_iff, List.forall₂_map_right_iff,
        List.forall₂_same]
      intro j hj
      exact mapper_shows (mem_selectWhere.mp (mem_of_items hj)).1
    nextCursor := rfl
    total := select_count h }

theorem next_readable (h : Constrained db) {c : Option (ReviewKey collation)}
    {d : ReviewKey collation} {limit : ℕ}
    (hd : (fetch (list.key collation) limit (list.matching db query) c).next = some d) :
    Readable d := by
  obtain ⟨r, hr, rfl⟩ := mem_of_next hd
  have htime : (utc (keyTime (list.key collation r))).instant = list.timestamp r := utc_instant _
  rw [Readable, Representable, htime]
  exact timestamp_range h (List.mem_of_mem_filter hr)

end

/-! ### A whole reading -/

namespace ReviewList
variable (list : ReviewList)

/-- The answers to a reader who asks for the first page and then follows `next_cursor`;
the k-th answer is given by the k-th database. -/
def reading (collation : LinearOrder String) (query : ReviewQuery) (dbs : ℕ → Database Row) :
    ℕ → Option (Except ReviewError (ReviewPage list.Payload)) :=
  KeysetPages.reading (fun k c => list.load collation (dbs k) { query with cursor := c })
    fun answer => answer.toOption.bind ReviewPage.nextCursor

/-- Between two fetches the matching rows only grow, by rows that sort before the cursor. -/
def GrowsBefore (collation : LinearOrder String) (query : ReviewQuery)
    (c : DateTime × String) (db db' : Database Row) : Prop :=
  Extends (list.key collation) (reviewKey collation c.1.instant c.2) (list.matching db query)
    (list.matching db' query)

end ReviewList

section
variable {query : ReviewQuery} {list : ReviewList} {collation : LinearOrder String}
variable {dbs : ℕ → Database Row}

/-- The answers stay beside the pages of a keyset reading of the matching rows. -/
theorem reading_fetches (hdbs : ∀ k, Constrained (dbs k)) (k : ℕ) :
    (pagesOf (list.key collation) query.limit (fun k => list.matching (dbs k) query) k = none ∧
      list.reading collation query dbs k = none) ∨
    ∃ p page, pagesOf (list.key collation) query.limit (fun k => list.matching (dbs k) query) k =
        some p ∧ list.reading collation query dbs k = some (.ok page) ∧
      Related list (dbs k) query p (.ok page) page ∧ ∀ c ∈ p.next, Readable c := by
  have hfetch := reading_related
    (fun k => fetch (list.key collation) query.limit (list.matching (dbs k) query))
    (fun k c => list.load collation (dbs k) { query with cursor := c })
    Page.next (fun answer => answer.toOption.bind ReviewPage.nextCursor) cursorText Readable
    (fun k p answer => ∃ page, Related list (dbs k) query p answer page)
    (fun k c hc => load_related (hdbs k) hc)
    (fun k c d hd => next_readable (hdbs k) hd)
    (fun k p answer hrel => by
      obtain ⟨page, hpage⟩ := hrel
      rw [hpage.answered]
      exact hpage.nextCursor) k
  rcases hfetch with hnone | ⟨c, answer, hp, hanswer, page, hpage⟩
  · exact .inl hnone
  · have hok := hpage.answered
    subst hok
    exact .inr ⟨_, page, hp, hanswer, hpage, fun d hd => next_readable (hdbs k) hd⟩

/-- What the reader is promised about the cursor text holds of the cursor key. -/
theorem extends_of_grows (hdbs : ∀ k, Constrained (dbs k))
    (hgrows : ∀ k page c, list.reading collation query dbs k = some (.ok page) →
      decodeCursor page.nextCursor = .ok (some c) →
      list.GrowsBefore collation query c (dbs k) (dbs (k + 1)))
    (k : ℕ) (p : Page (Row list.table) (ReviewKey collation)) (c : ReviewKey collation)
    (hp : pagesOf (list.key collation) query.limit (fun k => list.matching (dbs k) query) k =
      some p) (hc : p.next = some c) :
    Extends (list.key collation) c (list.matching (dbs k) query)
      (list.matching (dbs (k + 1)) query) := by
  rcases reading_fetches hdbs k with ⟨hnone, -⟩ | ⟨q, page, hq, hpage, hrel, hreadable⟩
  · exact absurd (hp.symm.trans hnone) (by simp)
  · obtain rfl := Option.some.inj (hp.symm.trans hq)
    have hcursor : page.nextCursor = some (cursorText c) := by rw [hrel.nextCursor, hc]; rfl
    have hdecode := decodeCursor_cursor (hreadable c hc) (keyId c)
    rw [show cursor (utc (keyTime c)) (keyId c) = cursorText c from rfl, ← hcursor] at hdecode
    have hext := hgrows k page _ hpage hdecode
    rw [ReviewList.GrowsBefore, utc_instant, utc_instant] at hext
    exact hext

end

section
variable {list : ReviewList} (query : ReviewQuery) (db : Database Row)
  (rows : List (Row list.table))

/-- New rows of the list's own table are joined with what is there, and the filters ask
nothing new of the rows that were there. -/
theorem select_insert : ∃ more,
    (list.select (db.set list.table (db list.table ++ rows)) query).source =
      (list.select db query).source ++ more ∧
    (list.select (db.set list.table (db list.table ++ rows)) query).conditions =
      (list.select db query).conditions := by
  cases list with
  | trials => exact ⟨rows, rfl, rfl⟩
  | batches => exact ⟨_, innerJoin_append rows, rfl⟩
  | invoices => exact ⟨_, innerJoin_append rows, rfl⟩
  | transfers => exact ⟨_, (congrArg (fun js => outerJoin _ js _)
      (outerJoin_append rows)).trans (outerJoin_append _), rfl⟩
  | webhookEvents => exact ⟨rows, rfl, rfl⟩

/-- Inserting rows that sort before the cursor is such a growth, whatever else they are. -/
theorem growsBefore_insert {query : ReviewQuery} {db : Database Row}
    {rows : List (Row list.table)} {collation : LinearOrder String} {c : DateTime × String}
    (h : Constrained db) (h' : Constrained (db.set list.table (db list.table ++ rows)))
    (hrows : ∀ r ∈ rows, reviewKey collation c.1.instant c.2 < list.key collation r) :
    list.GrowsBefore collation query c db (db.set list.table (db list.table ++ rows)) := by
  obtain ⟨more, hsource, hconditions⟩ := select_insert query db rows
  have hmore : more.map list.entry = rows := by
    have hentries : (list.select _ query).source.map list.entry = _ := select_entries h' query
    rw [hsource, List.map_append, select_entries h query, Database.set_self] at hentries
    exact List.append_cancel_left hentries
  have hmatching : list.matching (db.set list.table (db list.table ++ rows)) query =
      list.matching db query ++
        (selectWhere (list.select db query).conditions more).map list.entry := by
    rw [← statement_entries h', ← statement_entries h, ReviewSelect.statement,
      ReviewSelect.statement, hsource, hconditions, selectWhere_source_append, List.map_append]
  constructor
  · intro r hr
    rw [hmatching]
    exact List.mem_append_left _ hr
  · intro r hr hnew
    rw [hmatching, List.mem_append] at hr
    obtain ⟨j, hj, rfl⟩ := List.mem_map.mp (hr.resolve_left hnew)
    exact hrows _ (hmore ▸ List.mem_map_of_mem (mem_selectWhere.mp hj).1)

end

/-- A reading of a review list ends. Every page is an answer without error that shows its rows,
each under its id and timestamp, and counts the rows that match; every page but the last is
full; and the rows of all pages are the rows that matched at the start, once each and strictly
descending. -/
theorem pages_complete (collation : LinearOrder String) (list : ReviewList) (query : ReviewQuery)
    (hlimit : 1 ≤ query.limit) (dbs : ℕ → Database Row) (hdbs : ∀ k, Constrained (dbs k))
    (hgrows : ∀ k page c, list.reading collation query dbs k = some (.ok page) →
      decodeCursor page.nextCursor = .ok (some c) →
      list.GrowsBefore collation query c (dbs k) (dbs (k + 1))) :
    ∃ pages : List (ReviewPage list.Payload × List (Row list.table)), pages ≠ [] ∧
      (∀ k, list.reading collation query dbs k = (pages[k]?).map fun p => .ok p.1) ∧
      (∀ k page rows, pages[k]? = some (page, rows) →
        list.Shows (dbs k) query rows page.items ∧
          page.total = (list.matching (dbs k) query).length) ∧
      (∀ p ∈ pages.dropLast, p.1.items.length = query.limit) ∧
      (pages.flatMap (·.2)).Pairwise (fun a b => list.key collation b < list.key collation a) ∧
      (pages.flatMap (·.2)).Perm (list.matching (dbs 0) query) := by
  obtain ⟨fetched, hne, hread, hfull, hrows⟩ := reading_complete hlimit
    (fun k => matching_keyed collation (hdbs k)) (extends_of_grows hdbs hgrows)
  obtain ⟨pairs, rfl, hanswers, hrel⟩ := exists_pairs fetched
    (fun k => (list.reading collation query dbs k).bind Except.toOption)
    (fun k p page => list.reading collation query dbs k = some (.ok page) ∧
      Related list (dbs k) query p (.ok page) page) fun k => by
      rcases reading_fetches hdbs k with ⟨hp, hanswer⟩ | ⟨p, page, hp, hanswer, hpage, -⟩
      · exact .inl ⟨(hread k).symm.trans hp, by rw [hanswer]; rfl⟩
      · exact .inr ⟨p, page, (hread k).symm.trans hp, by rw [hanswer]; rfl, hanswer, hpage⟩
  have hkeyed : (descending (list.key collation) (list.matching (dbs 0) query)).Pairwise _ :=
    (matching_keyed collation (hdbs 0)).descending
  have hitems : (pairs.map fun x => (x.2, x.1.items)).flatMap (·.2) =
      (pairs.map Prod.fst).flatMap (·.items) := by
    rw [List.flatMap_map, List.flatMap_map]
  refine ⟨pairs.map fun x => (x.2, x.1.items), by simpa using hne, ?_, ?_, ?_, ?_, ?_⟩
  · intro k
    cases hk : pairs[k]? with
    | none =>
        rcases reading_fetches hdbs k with ⟨-, hanswer⟩ | ⟨p, page, hp, -⟩
        · rw [List.getElem?_map, hk]
          exact hanswer
        · simpa [hk] using (hread k).symm.trans hp
    | some x => simp [hk, (hrel k x.1 x.2 hk).1]
  · intro k page rows hk
    obtain ⟨x, hx, hpage⟩ := Option.map_eq_some_iff.mp (List.getElem?_map.symm.trans hk)
    obtain ⟨rfl, rfl⟩ := Prod.mk.inj hpage
    have hpair := (hrel k x.1 x.2 hx).2
    exact ⟨hpair.items, hpair.total⟩
  · intro p hp
    rw [← List.map_dropLast] at hp
    obtain ⟨x, hx, rfl⟩ := List.mem_map.mp hp
    obtain ⟨k, hk⟩ := List.mem_iff_getElem?.mp (List.dropLast_subset _ hx)
    have hshown : x.1.items.length = x.2.items.length := (hrel k x.1 x.2 hk).2.items.length_eq
    have hmem : x.1 ∈ (pairs.map Prod.fst).dropLast :=
      List.map_dropLast (f := Prod.fst) ▸ List.mem_map_of_mem hx
    exact hshown ▸ hfull x.1 hmem
  · rw [hitems, hrows]
    exact hkeyed
  · rw [hitems, hrows]
    exact descending_perm

def finishedRun (id : TrialRunId) (time : ℤ) : TrialRunRow where
  id := id
  status := .completed
  startedAt := time
  endsAt := time
  createdAt := time
  completedAt := none
  activeMarker := none

/-- Two trials of one instant. -/
def twoRuns : Database Row
  | .trialRuns => [finishedRun "trial-1" 1785585600000000, finishedRun "trial-2" 1785585600000000]
  | _ => []

/-- A later trial appears between the first and the second fetch. -/
def laterRun : ℕ → Database Row
  | 0 => twoRuns
  | _ + 1 => twoRuns.set .trialRuns
      (twoRuns .trialRuns ++ [finishedRun "trial-3" 1785585600000001])

theorem pages_complete_laterRun :
    ∃ pages : List (ReviewPage TrialPayload × List TrialRunRow), pages ≠ [] ∧
      (∀ k, ReviewList.trials.reading inferInstance { limit := 1 } laterRun k =
        (pages[k]?).map fun p => .ok p.1) ∧
      (∀ k page rows, pages[k]? = some (page, rows) →
        ReviewList.trials.Shows (laterRun k) { limit := 1 } rows page.items ∧
          page.total = (ReviewList.trials.matching (laterRun k) { limit := 1 }).length) ∧
      (∀ p ∈ pages.dropLast, p.1.items.length = 1) ∧
      (pages.flatMap (·.2)).Pairwise (fun a b =>
        ReviewList.trials.key inferInstance b < ReviewList.trials.key inferInstance a) ∧
      (pages.flatMap (·.2)).Perm (ReviewList.trials.matching twoRuns { limit := 1 }) := by
  have hrun : ∀ k, Constrained (laterRun k) := by
    intro k
    cases k with
    | zero => exact (by decide : Constrained twoRuns)
    | succ k =>
        exact (by decide : Constrained (twoRuns.set .trialRuns
          (twoRuns .trialRuns ++ [finishedRun "trial-3" 1785585600000001])))
  have hfirst : (ReviewList.trials.reading inferInstance { limit := 1 } laterRun 0).map
      (fun answer => decodeCursor (answer.toOption.bind ReviewPage.nextCursor)) =
      some (.ok (some (utc 1785585600000000, "trial-2"))) := by
    decide +kernel
  refine pages_complete inferInstance .trials { limit := 1 } (by decide) laterRun hrun ?_
  intro k page c hpage hc
  cases k with
  | zero =>
      rw [hpage] at hfirst
      obtain rfl : (utc 1785585600000000, "trial-2") = c := by
        have hread : decodeCursor page.nextCursor = _ := Option.some.inj hfirst
        simpa using hread.symm.trans hc
      refine growsBefore_insert (hrun 0) (hrun 1) fun r hr => ?_
      rw [List.mem_singleton.mp hr]
      exact Prod.Lex.toLex_lt_toLex.mpr (.inl (by decide))
  | succ k => exact ⟨fun r hr => hr, fun r hr hnew => absurd hr hnew⟩

end StarkbankTrial.ReviewPages
