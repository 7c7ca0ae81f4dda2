import StarkbankTrial.EventRecording
import StarkbankTrial.ReadCommitted

/-!
# The recording of a credited event, statement by statement

An outline names a fact for every point between two statements of one recording, and shows
for every statement that it leads from the fact before it to the facts after it. `fresh`
says that the recording has inserted its event itself; the other recordings that look for an
owner redeliver an event that was stored as unknown.
-/
namespace StarkbankTrial.RecordOutline
open Domain InteractivePrograms InterleavedRuns RelationalTables RowVersions ReadCommitted
open DatabaseSchema EventRecording
open DatabaseSchema.Table

/-- A credited event as the store is handed it, and the id that `uuid4` would draw. -/
structure Delivery where
  event : CreditedInvoiceEvent
  payloadHash : String
  receivedAt : ℤ
  netAmount : Option ℤ
  jobId : TransferJobId
deriving Repr, DecidableEq

namespace Delivery

def toRecord (d : Delivery) : EventRecord where
  event := .credited d.event
  payloadHash := d.payloadHash
  receivedAt := d.receivedAt
  netAmount := d.netAmount

def txn (d : Delivery) : Txn EventWriteResult := record d.jobId d.toRecord

/-! ### The statements -/

abbrev insertEvent (d : Delivery) : Statement Row :=
  .insert webhookEvents [eventRow d.toRecord (initialOutcome d.toRecord)]

abbrev selectStored (d : Delivery) : Statement Row :=
  .select webhookEvents fun e : WebhookEventRow => e.id == d.event.eventId

abbrev selectOwner (d : Delivery) : Statement Row :=
  .select ownedInvoices fun o : OwnedInvoiceRow => o.providerInvoiceId == some d.event.invoiceId

abbrev selectByTags (d : Delivery) : Statement Row :=
  .select ownedInvoices fun o : OwnedInvoiceRow => d.event.tags.eraseDups.contains o.tag

abbrev selectTagMatches (d : Delivery) : Statement Row :=
  .select ownedInvoices fun o : OwnedInvoiceRow => d.event.tags.contains o.tag

abbrev bindOwner (d : Delivery) (owner : OwnedInvoiceRow) : Statement Row :=
  .update ownedInvoices
    (fun o : OwnedInvoiceRow => o.tag == owner.tag && o.providerInvoiceId == none)
    fun o => { o with providerInvoiceId := some d.event.invoiceId, updatedAt := d.receivedAt }

abbrev createDraft (d : Delivery) (draftId : DraftId) : Statement Row :=
  .update invoiceDrafts
    (fun r : InvoiceDraftRow => r.id == draftId &&
      (r.providerInvoiceId == none || r.providerInvoiceId == some d.event.invoiceId))
    fun r => { r with
      providerInvoiceId := some d.event.invoiceId
      status := .created
      updatedAt := d.receivedAt }

abbrev selectJobs (d : Delivery) : Statement Row :=
  .select transferJobs fun j : TransferJobRow => j.invoiceId == d.event.invoiceId

abbrev insertJob (d : Delivery) (netAmount : ℤ) : Statement Row :=
  .insert transferJobs [newJob d.jobId d.event netAmount d.receivedAt]

abbrev mark (d : Delivery) (outcome : EventWriteResult) : Statement Row :=
  .update webhookEvents (fun e : WebhookEventRow => e.id == d.event.eventId)
    fun e => { e with outcome := outcome }

/-- The stored event that a redelivery promotes. -/
def Promotes (d : Delivery) (row : WebhookEventRow) : Prop :=
  row.payloadHash = d.payloadHash ∧ row.outcome = .invoiceUnknown

end Delivery

section
variable {ι A : Type}

/-- Any number of recordings of credited events, interleaved statement by statement. -/
abbrev recordings [DecidableEq ι] (deliveries : ι → Delivery) :
    System ι (SessionOp Row) SessionOp.Answer StoreError EventWriteResult (Versions ι Row) :=
  system metadata fun i => (deliveries i).txn

structure Outline (P : Protocol ι (SessionOp Row) SessionOp.Answer StoreError A (Versions ι Row))
    (i : ι) (d : Delivery) where
  start : Fact ι Row
  known : Fact ι Row
  seek (fresh : Bool) : Fact ι Row
  unbound (fresh : Bool) : Fact ι Row
  selected (fresh : Bool) (owner : OwnedInvoiceRow) : Fact ι Row
  matched (fresh : Bool) (owner : OwnedInvoiceRow) : Fact ι Row
  owned (fresh : Bool) (owner : OwnedInvoiceRow) : Fact ι Row
  drafted (fresh : Bool) : Fact ι Row
  vacant (fresh : Bool) : Fact ι Row
  taken : Fact ι Row
  queued (fresh : Bool) : Fact ι Row
  unowned (fresh : Bool) : Fact ι Row
  result (outcome : EventWriteResult) : Fact ι Row
  failed : Fact ι Row
  result_stable : ∀ outcome, P.Stable i (result outcome)
  failed_stable : P.Stable i failed
  insertEvent : P.Triple i start (.statement d.insertEvent) fun stored l s =>
    (stored = true → (d.netAmount = none → result .rejected l s) ∧
      (d.netAmount ≠ none → seek true l s)) ∧
    (stored = false → (d.netAmount = none → result .duplicateEvent l s) ∧
      (d.netAmount ≠ none → known l s))
  selectStored : P.Triple i known (.statement d.selectStored) fun rows l s =>
    ((∀ row ∈ rows.head?, ¬ d.Promotes row) → result .duplicateEvent l s) ∧
      ∀ row ∈ rows.head?, d.Promotes row → seek false l s
  selectOwner : ∀ fresh, P.Triple i (seek fresh) (.statement d.selectOwner) fun rows l s =>
    (rows = [] → unbound fresh l s) ∧ ∀ owner ∈ rows.head?, matched fresh owner l s
  untagged : ∀ fresh l s, d.event.tags = [] → (unbound fresh l s → unowned fresh l s) ∧
    ∀ owner, matched fresh owner l s → owned fresh owner l s
  selectByTags : ∀ fresh, P.Triple i (unbound fresh) (.statement d.selectByTags) fun rows l s =>
    (∀ owner, rows.take 2 = [owner] → (owner.providerInvoiceId = none ∨
      owner.providerInvoiceId = some d.event.invoiceId) → selected fresh owner l s) ∧
    ((∀ owner, rows.take 2 = [owner] → owner.providerInvoiceId ≠ none ∧
      owner.providerInvoiceId ≠ some d.event.invoiceId) → unowned fresh l s)
  bindOwner : ∀ fresh owner, P.Triple i (selected fresh owner) (.statement (d.bindOwner owner))
    fun bound l s => (bound = none → unowned fresh l s) ∧
      (bound ≠ none → owned fresh owner l s)
  selectTagMatches : ∀ fresh owner, P.Triple i (matched fresh owner)
    (.statement d.selectTagMatches) fun rows l s =>
      ((∀ o ∈ rows, o.tag = owner.tag) → owned fresh owner l s) ∧
        ((∃ o ∈ rows, o.tag ≠ owner.tag) → unowned fresh l s)
  undrafted : ∀ fresh owner l s, owner.draftId = none → owned fresh owner l s → drafted fresh l s
  createDraft : ∀ fresh owner draftId, owner.draftId = some draftId →
    P.Triple i (owned fresh owner) (.statement (d.createDraft draftId)) fun updated l s =>
      (updated = none → failed l s) ∧ (updated ≠ none → drafted fresh l s)
  selectJobs : ∀ fresh, P.Triple i (drafted fresh) (.statement d.selectJobs) fun rows l s =>
    (rows = [] → vacant fresh l s) ∧ (rows ≠ [] → taken l s)
  insertJob : ∀ fresh net, d.netAmount = some net →
    P.Triple i (vacant fresh) (.statement (d.insertJob net)) fun inserted l s =>
      (inserted = true → queued fresh l s) ∧ (inserted = false → taken l s)
  markDuplicate : P.Triple i taken (.statement (d.mark .duplicateInvoice)) fun updated l s =>
    (updated = none → failed l s) ∧ (updated ≠ none → result .duplicateInvoice l s)
  markUnknown : P.Triple i (unowned true) (.statement (d.mark .invoiceUnknown))
    fun updated l s => (updated = none → failed l s) ∧
      (updated ≠ none → result .invoiceUnknown l s)
  markQueued : P.Triple i (queued false) (.statement (d.mark .queued)) fun updated l s =>
    (updated = none → failed l s) ∧ (updated ≠ none → result .queued l s)
  ends : ∀ l s, (queued true l s → result .queued l s) ∧
    (unowned false l s → result .duplicateEvent l s)

/-! ### From the statements to the recording -/

variable {P : Protocol ι (SessionOp Row) SessionOp.Answer StoreError A (Versions ι Row)}
variable {i : ι} {l : Log ι (SessionOp Row) SessionOp.Answer} {s : Versions ι Row}

/-- An update outside a savepoint. -/
theorem updateRows_ensures {B : Type} {t : Table} {condition : Row t → Bool}
    {assign : Row t → Row t} {f : ℕ → Txn B} {fact after fails : Fact ι Row}
    {post : B → Fact ι Row} (hfact : fact l s)
    (hrule : P.Triple i fact (.statement (.update t condition assign)) fun updated l s =>
      (updated = none → fails l s) ∧ (updated ≠ none → after l s))
    (hfails : P.Stable i fails)
    (hnext : ∀ n l s, after l s → Ensures P i (statements (f n)) (Ends post fails) l s) :
    Ensures P i (statements (updateRows t condition assign >>= f)) (Ends post fails) l s := by
  refine .call hfact hrule fun updated l s hafter => ?_
  cases updated with
  | none => exact .raised (hafter.1 rfl) hfails
  | some n => exact hnext n l s (hafter.2 (Option.some_ne_none n))

/-- Asking for two rows is enough to see whether there is just one. -/
theorem take_two_eq_singleton {R : Type} {rows : List R} {r : R} :
    rows.take 2 = [r] ↔ rows = [r] := by
  rcases rows with _ | ⟨a, _ | ⟨b, rest⟩⟩ <;> simp

namespace Outline
variable {d : Delivery} (o : Outline P i d)

/-- Where a part of a recording ends, with what it returns. -/
abbrev Reaches {B : Type} (p : Txn B) (post : B → Fact ι Row) : Fact ι Row :=
  Ensures P i (statements p) (Ends post o.failed)

theorem mark_ensures {fact : Fact ι Row} {outcome : EventWriteResult}
    (hrule : P.Triple i fact (.statement (d.mark outcome)) fun updated l s =>
      (updated = none → o.failed l s) ∧ (updated ≠ none → o.result outcome l s))
    (hfact : fact l s) :
    o.Reaches (markOutcome d.event.eventId outcome) o.result l s :=
  updateRows_ensures hfact hrule o.failed_stable fun _ _ _ hresult =>
    .returned (o.result_stable outcome) hresult

theorem ownerByTag_ensures {B : Type} {f : Option OwnedInvoiceRow → Txn B} {fresh : Bool}
    {post : B → Fact ι Row}
    (hnone : ∀ l s, o.unowned fresh l s → o.Reaches (f none) post l s)
    (hsome : ∀ owner l s, o.owned fresh owner l s → o.Reaches (f (some owner)) post l s)
    (h : o.unbound fresh l s) : o.Reaches (ownerByTag d.event d.receivedAt >>= f) post l s := by
  unfold ownerByTag
  by_cases htags : d.event.tags.eraseDups.isEmpty = true
  · have hempty : d.event.tags = [] := by
      cases hcons : d.event.tags with
      | nil => rfl
      | cons tag tags => simp [hcons, List.eraseDups_cons] at htags
    simp only [htags, if_true]
    exact hnone l s ((o.untagged fresh l s hempty).1 h)
  · simp only [htags]
    refine .call h (o.selectByTags fresh) fun rows l s hrows => ?_
    simp only [Program.bind]
    split
    · next owner heq =>
      split_ifs with hother
      · refine hnone l s (hrows.2 fun owner' howner' => ?_)
        obtain rfl : owner = owner' := by simpa [heq] using howner'
        simpa using hother
      · have hfree : owner.providerInvoiceId = none ∨
            owner.providerInvoiceId = some d.event.invoiceId := by
          by_contra hnot
          obtain ⟨hsome, hsame⟩ := not_or.mp hnot
          exact hother (by simp [hsome, hsame])
        refine .call (hrows.1 owner heq hfree) (o.bindOwner fresh owner) fun bound l s hbound => ?_
        cases bound with
        | none => exact hnone l s (hbound.1 rfl)
        | some n => exact hsome owner l s (hbound.2 (Option.some_ne_none n))
    · next hnot => exact hnone l s (hrows.2 fun owner howner => (hnot owner howner).elim)

theorem confirmOwner_ensures {B : Type} {f : Option OwnedInvoiceRow → Txn B} {fresh : Bool}
    {owner : OwnedInvoiceRow} {post : B → Fact ι Row}
    (hnone : ∀ l s, o.unowned fresh l s → o.Reaches (f none) post l s)
    (hsome : ∀ owner l s, o.owned fresh owner l s → o.Reaches (f (some owner)) post l s)
    (h : o.matched fresh owner l s) :
    o.Reaches (confirmOwner owner d.event >>= f) post l s := by
  unfold confirmOwner
  by_cases htags : d.event.tags.isEmpty = true
  · have hempty : d.event.tags = [] := by simpa using htags
    simp only [htags, if_true]
    exact hsome owner l s ((o.untagged fresh l s hempty).2 owner h)
  · simp only [htags]
    refine .call h (o.selectTagMatches fresh owner) fun rows l s hrows => ?_
    change o.Reaches ((if (rows.any fun r : OwnedInvoiceRow => r.tag != owner.tag) = true
      then pure none else pure (some owner)) >>= f) post l s
    split_ifs with hother
    · exact hnone l s (hrows.2 (by simpa using hother))
    · exact hsome owner l s (hrows.1 (by simpa using hother))

theorem ownsInvoice_ensures {B : Type} {f : Bool → Txn B} {fresh : Bool} {post : B → Fact ι Row}
    (hfalse : ∀ l s, o.unowned fresh l s → o.Reaches (f false) post l s)
    (htrue : ∀ l s, o.drafted fresh l s → o.Reaches (f true) post l s)
    (h : o.seek fresh l s) : o.Reaches (ownsInvoice d.event d.receivedAt >>= f) post l s := by
  have hsome : ∀ owner l s, o.owned fresh owner l s → o.Reaches
      ((createOwnedDraft owner d.event d.receivedAt >>= fun _ => pure true) >>= f) post l s := by
    intro owner l s howned
    unfold createOwnedDraft
    cases hdraft : owner.draftId with
    | none => exact htrue l s (o.undrafted fresh owner l s hdraft howned)
    | some draftId =>
        simp only [bind_assoc, pure_bind]
        refine updateRows_ensures howned (o.createDraft fresh owner draftId hdraft)
          o.failed_stable fun n l s hdrafted => ?_
        exact htrue l s hdrafted
  rw [ownsInvoice, bind_assoc]
  refine .call h (o.selectOwner fresh) fun rows l s hrows => ?_
  cases rows with
  | nil =>
      change o.Reaches (ownerByTag d.event d.receivedAt >>= _) post l s
      exact o.ownerByTag_ensures hfalse hsome (hrows.1 rfl)
  | cons owner rest =>
      change o.Reaches (confirmOwner owner d.event >>= _) post l s
      exact o.confirmOwner_ensures hfalse hsome (hrows.2 owner rfl)

theorem queueTransfer_ensures {B : Type} {f : EventWriteResult → Txn B} {fresh : Bool} {net : ℤ}
    {post : B → Fact ι Row} (hnet : d.netAmount = some net)
    (hduplicate : ∀ l s, o.result .duplicateInvoice l s → o.Reaches (f .duplicateInvoice) post l s)
    (hqueued : ∀ l s, o.queued fresh l s → o.Reaches (f .queued) post l s)
    (h : o.drafted fresh l s) :
    o.Reaches (queueTransfer d.jobId d.event net d.receivedAt >>= f) post l s := by
  have htaken : ∀ l s, o.taken l s → 
      o.Reaches (EventRecording.markDuplicate d.event.eventId >>= f) post l s := by
    intro l s htaken
    rw [EventRecording.markDuplicate, markOutcome, bind_assoc]
    exact updateRows_ensures htaken o.markDuplicate o.failed_stable fun _ l s hresult =>
      hduplicate l s hresult
  refine .call h (o.selectJobs fresh) fun rows l s hrows => ?_
  cases rows with
  | cons job rest => exact htaken l s (hrows.2 (List.cons_ne_nil job rest))
  | nil =>
      refine .call (hrows.1 rfl) (o.insertJob fresh net hnet) fun inserted l s hinserted => ?_
      cases inserted with
      | false => exact htaken l s (hinserted.2 rfl)
      | true => exact hqueued l s (hinserted.1 rfl)

theorem result_ensures {outcome : EventWriteResult} (h : o.result outcome l s) :
    o.Reaches (pure outcome : Txn EventWriteResult) o.result l s :=
  .returned (o.result_stable outcome) h

theorem promoteStored_ensures {net : ℤ} (hnet : d.netAmount = some net)
    (h : o.seek false l s) :
    o.Reaches (promoteStored d.jobId d.toRecord d.event net) o.result l s := by
  refine o.ownsInvoice_ensures (fun l s h => o.result_ensures ((o.ends l s).2 h))
    (fun l s h => ?_) h
  refine o.queueTransfer_ensures hnet (fun l s h => o.result_ensures h) (fun l s h => ?_) h
  exact o.mark_ensures o.markQueued h

theorem recoverDuplicate_ensures (h : d.netAmount ≠ none → o.known l s)
    (hrejected : d.netAmount = none → o.result .duplicateEvent l s) :
    o.Reaches (recoverDuplicate d.jobId d.toRecord) o.result l s := by
  obtain ⟨event, payloadHash, receivedAt, netAmount, jobId⟩ := d
  cases netAmount with
  | none => exact o.result_ensures (hrejected rfl)
  | some net =>
      refine .call (h (Option.some_ne_none net)) o.selectStored fun rows l s hrows => ?_
      cases rows with
      | nil => exact o.result_ensures (hrows.1 (by simp))
      | cons row rest =>
          change o.Reaches (if (row.payloadHash != payloadHash ||
            row.outcome != .invoiceUnknown) = true then pure .duplicateEvent
              else promoteStored jobId _ event net) o.result l s
          split_ifs with hother
          · refine o.result_ensures (hrows.1 fun row' hrow' hpromotes => ?_)
            obtain rfl := Option.some.inj hrow'
            simp [hpromotes.1, hpromotes.2] at hother
          · refine o.promoteStored_ensures rfl (hrows.2 row rfl ?_)
            simpa [Delivery.Promotes] using hother

/-- The whole recording. -/
theorem record_ensures (h : o.start l s) : o.Reaches d.txn o.result l s := by
  refine .call h o.insertEvent fun stored l s hstored => ?_
  cases stored with
  | false => exact o.recoverDuplicate_ensures (hstored.2 rfl).2 (hstored.2 rfl).1
  | true =>
      obtain ⟨event, payloadHash, receivedAt, netAmount, jobId⟩ := d
      cases netAmount with
      | none => exact o.result_ensures ((hstored.1 rfl).1 rfl)
      | some net =>
          refine o.ownsInvoice_ensures (fun l s h => o.mark_ensures o.markUnknown h)
            (fun l s h => ?_) ((hstored.1 rfl).2 (Option.some_ne_none net))
          rw [← bind_pure (queueTransfer _ _ _ _)]
          exact o.queueTransfer_ensures rfl (fun l s h => o.result_ensures h)
            (fun l s h => o.result_ensures ((o.ends l s).1 h)) h

end Outline
end
end StarkbankTrial.RecordOutline
