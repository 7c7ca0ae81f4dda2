import StarkbankTrial.EventJobCorrespondence
import StarkbankTrial.InvoiceChanges

/-!
# Redelivered events

A stored event is recorded once more. Nothing happens, unless its invoice was unknown: then
the tables become what they would be if the event had come for the first time.

The comparison needs that the ownership check never raises. It does not, because a draft
never has an invoice that its owned row has not.
-/
namespace StarkbankTrial.RedeliveredEvents
open Domain InteractivePrograms RelationalTables Transaction DatabaseSchema
open DatabaseSchema.Table
open EventRecording InvoiceRecording StoreOperations JobChanges InvoiceChanges
open EventJobCorrespondence
open Program hiding atomically

/-! ### The statement -/

/-- The database without the row of the event. -/
def undelivered (eventId : EventId) (db : Database Row) : Database Row :=
  db.set webhookEvents ((db webhookEvents).filter fun e : WebhookEventRow => e.id != eventId)

/-- The row, but for the time at which the event was received. -/
def withoutReceipt (eventId : EventId) (e : WebhookEventRow) : WebhookEventRow :=
  if e.id = eventId then { e with receivedAt := 0 } else e

/-- The tables hold the same rows, but for the receipt of the event. -/
structure SameExceptReceipt (eventId : EventId) (db db' : Database Row) : Prop where
  events : ((db webhookEvents).map (withoutReceipt eventId)).Perm
    ((db' webhookEvents).map (withoutReceipt eventId))
  others : ∀ t, t ≠ webhookEvents → db t = db' t

/-- What a delivery does when a row with the id of its event is stored. -/
structure Redelivered (jobId : TransferJobId) (r : EventRecord) (row : WebhookEventRow)
    (db : Database Row) : Prop where
  inert : row.outcome ≠ .invoiceUnknown ∨ row.payloadHash ≠ r.payloadHash →
    (StoreOp.events (.record jobId r)).apply db = (.ok .duplicateEvent, db)
  credited : row.outcome = .invoiceUnknown → row.payloadHash = r.payloadHash →
    ∃ event net, r.event = .credited event ∧ r.netAmount = some net ∧ 0 < net
  promoted : row.outcome = .invoiceUnknown → row.payloadHash = r.payloadHash →
    SameExceptReceipt r.event.eventId ((StoreOp.events (.record jobId r)).apply db).2
      ((StoreOp.events (.record jobId r)).apply (undelivered r.event.eventId db)).2

/-! ### Where the rows of events come from -/

/-- The record was credited with a positive net amount. -/
def Credited (r : EventRecord) : Prop :=
  ∃ event net, r.event = .credited event ∧ r.netAmount = some net

/-- What the recording of an event does to the event table. -/
inductive EventsRecorded (r : EventRecord) (events : List WebhookEventRow) :
    List WebhookEventRow → Prop
  | same : EventsRecorded r events events
  | stored {outcome : EventWriteResult} : (∀ e ∈ events, e.id ≠ r.event.eventId) →
      (outcome = .invoiceUnknown → Credited r) →
      EventsRecorded r events (events ++ [eventRow r outcome])
  | promoted {outcome : EventWriteResult} : outcome ≠ .invoiceUnknown →
      EventsRecorded r events (withOutcome r.event.eventId outcome events)

/-- The outcome of the event in the last row. -/
theorem withOutcome_append {eventId : EventId} {events : List WebhookEventRow}
    (hnew : ∀ e ∈ events, e.id ≠ eventId) {row : WebhookEventRow} (hid : row.id = eventId)
    (outcome : EventWriteResult) : withOutcome eventId outcome (events ++ [row]) =
      events ++ [{ row with outcome := outcome }] := by
  have hold : withOutcome eventId outcome events = events :=
    assignWhere_none fun e he => by simpa using hnew e he
  have hrow : withOutcome eventId outcome [row] = [{ row with outcome := outcome }] := by
    simp [withOutcome, assignWhere, hid]
  calc withOutcome eventId outcome (events ++ [row])
      = withOutcome eventId outcome events ++ withOutcome eventId outcome [row] :=
        List.map_append
    _ = events ++ [{ row with outcome := outcome }] := by rw [hold, hrow]

theorem queueTransfer_events (jobId : TransferJobId) (event : CreditedInvoiceEvent)
    (net receivedAt : ℤ) (db : Database Row) :
    Establishes (respond metadata) (queueTransfer jobId event net receivedAt) (fun o db' =>
      (o = .queued ∧ db' webhookEvents = db webhookEvents) ∨
        (o = .duplicateInvoice ∧
          db' webhookEvents = withOutcome event.eventId .duplicateInvoice (db webhookEvents))) db := by
  have hmark : Establishes (respond metadata) (markDuplicate event.eventId) (fun o db' =>
      (o = .queued ∧ db' webhookEvents = db webhookEvents) ∨ (o = .duplicateInvoice ∧
        db' webhookEvents = withOutcome event.eventId .duplicateInvoice (db webhookEvents))) db :=
    (markOutcome_establishes event.eventId .duplicateInvoice db).mono fun _ _ h =>
      .inr ⟨h.1, h.2.2⟩
  unfold queueTransfer
  simp only [select_bind, establishes_call, respond_select]
  split
  · exact hmark
  · simp only [insert_bind]
    refine establishes_insert (fun db' _ hdb' => (establishes_done _).mpr (.inl ⟨rfl, ?_⟩))
      fun _ => hmark
    rw [hdb']
    exact Database.set_of_ne _ (by decide) _

theorem promoteStored_events (jobId : TransferJobId) {r : EventRecord}
    {event : CreditedInvoiceEvent} (hevent : r.event = .credited event) (net : ℤ)
    (db : Database Row) : Establishes (respond metadata) (promoteStored jobId r event net)
      (fun _ db' => EventsRecorded r (db webhookEvents) (db' webhookEvents)) db := by
  have hid : r.event.eventId = event.eventId := by rw [hevent]; rfl
  unfold promoteStored
  refine .bind ((EventJobCorrespondence.ownsInvoice_establishes event r.receivedAt db).mono ?_)
  rintro owned db₁ ⟨hevents, -⟩
  cases owned with
  | false => exact (establishes_done _).mpr (hevents ▸ .same)
  | true =>
      refine .bind ((queueTransfer_events jobId event net r.receivedAt db₁).mono ?_)
      rintro o db₂ (⟨rfl, hsame⟩ | ⟨rfl, hmarked⟩)
      · refine (markOutcome_establishes event.eventId .queued db₂).mono ?_
        rintro o db₃ ⟨-, -, hmarked⟩
        rw [hmarked, hsame, hevents, ← hid]
        exact .promoted (by decide)
      · refine (establishes_done _).mpr ?_
        rw [hmarked, hevents, ← hid]
        exact .promoted (by decide)

theorem recoverDuplicate_events (jobId : TransferJobId) (r : EventRecord) (db : Database Row) :
    Establishes (respond metadata) (recoverDuplicate jobId r)
      (fun _ db' => EventsRecorded r (db webhookEvents) (db' webhookEvents)) db := by
  unfold recoverDuplicate
  split
  · next event net hevent _ =>
      simp only [select_bind, establishes_call, respond_select]
      split
      · exact (establishes_done _).mpr .same
      · exact establishes_ite _ (fun _ => (establishes_done _).mpr .same)
          fun _ => promoteStored_events jobId hevent net db
  · exact (establishes_done _).mpr .same

theorem lifecycleOutcome_ne (job : Option TransferJobRow) (event : TransferLifecycleEvent) :
    lifecycleOutcome job event ≠ .invoiceUnknown := by
  unfold lifecycleOutcome
  split
  · decide
  · split
    · decide
    · split_ifs <;> decide

theorem initialOutcome_ne (r : EventRecord) : initialOutcome r ≠ .invoiceUnknown := by
  unfold initialOutcome
  split
  · decide
  · split_ifs <;> decide

theorem record_events (jobId : TransferJobId) (r : EventRecord) (db : Database Row) :
    Establishes (respond metadata) (EventRecording.record jobId r)
      (fun _ db' => EventsRecorded r (db webhookEvents) (db' webhookEvents)) db := by
  unfold EventRecording.record
  split
  · next event hevent =>
      unfold recordTransferEvent
      simp only [select_bind, establishes_call, respond_select]
      refine insertEvent_establishes (fun hnew db₁ h₁ => ?_) ((establishes_done _).mpr .same)
      have hstored : ∀ db' : Database Row, db' webhookEvents = db₁ webhookEvents →
          EventsRecorded r (db webhookEvents) (db' webhookEvents) := by
        intro db' hdb'
        rw [hdb', h₁, Database.set_self]
        exact .stored hnew fun h => absurd h (lifecycleOutcome_ne _ event)
      unfold updateMatched
      split_ifs
      · exact establishes_updateRows fun _ => (establishes_done _).mpr
          (hstored _ (Database.set_of_ne _ (by decide) _))
      · exact (establishes_done _).mpr (hstored _ rfl)
  · refine insertEvent_establishes (fun hnew db₁ h₁ => ?_) (recoverDuplicate_events jobId r db)
    have h₁ : db₁ webhookEvents = db webhookEvents ++ [eventRow r (initialOutcome r)] := by
      rw [h₁, Database.set_self]
    simp only
    split
    · next event net hevent hnet =>
        have hid : event.eventId = r.event.eventId := by rw [hevent]; rfl
        refine .bind ((EventJobCorrespondence.ownsInvoice_establishes event r.receivedAt
          db₁).mono ?_)
        rintro (_ | _) db₂ ⟨h₂, -⟩
        · refine (markOutcome_establishes event.eventId .invoiceUnknown db₂).mono ?_
          rintro o db₃ ⟨-, -, h₃⟩
          rw [h₃, h₂, h₁, hid, withOutcome_append hnew rfl]
          exact .stored hnew fun _ => ⟨event, net, hevent, hnet⟩
        · refine (queueTransfer_events jobId event net r.receivedAt db₂).mono ?_
          rintro o db₃ (⟨-, h₃⟩ | ⟨-, h₃⟩)
          · rw [h₃, h₂, h₁]
            exact .stored hnew fun h => absurd h (initialOutcome_ne r)
          · rw [h₃, h₂, h₁, hid, withOutcome_append hnew rfl]
            exact .stored hnew fun h => absurd h (by decide)
    · refine (establishes_done _).mpr ?_
      rw [h₁]
      exact .stored hnew fun h => absurd h (initialOutcome_ne r)

/-- The row is the row of a delivered record, which was credited when it says unknown. -/
def StoredFrom (Delivered : EventRecord → Prop) (e : WebhookEventRow) : Prop :=
  ∃ r, Delivered r ∧ e = eventRow r e.outcome ∧ (e.outcome = .invoiceUnknown → Credited r)

variable {Delivered : EventRecord → Prop}

theorem EventsRecorded.storedFrom {r : EventRecord} {events events' : List WebhookEventRow}
    (h : EventsRecorded r events events') (hr : Delivered r)
    (hevents : ∀ e ∈ events, StoredFrom Delivered e) : ∀ e ∈ events', StoredFrom Delivered e := by
  cases h with
  | same => exact hevents
  | stored _ hcredited =>
      intro e he
      rcases List.mem_append.mp he with he | he
      · exact hevents e he
      · obtain rfl := List.mem_singleton.mp he
        exact ⟨r, hr, rfl, hcredited⟩
  | promoted hne =>
      intro e he
      rcases mem_assignWhere.mp he with ⟨a, ha, -, rfl⟩ | ⟨he, -⟩
      · obtain ⟨r₀, hr₀, hrow, -⟩ := hevents a ha
        refine ⟨r₀, hr₀, ?_, fun h => absurd h hne⟩
        rw [hrow]
        rfl
      · exact hevents e he

theorem apply_storedFrom {op : StoreOp} {db : Database Row}
    (hdelivered : ∀ r, delivery op = some r → Delivered r)
    (h : ∀ e ∈ db webhookEvents, StoredFrom Delivered e) :
    ∀ e ∈ (op.apply db).2 webhookEvents, StoredFrom Delivered e := by
  have hframe : webhookEvents ∉ op.tables →
      ∀ e ∈ (op.apply db).2 webhookEvents, StoredFrom Delivered e := by
    intro hop
    rw [StoreOp.apply_frame op hop db]
    exact h
  cases op with
  | events op =>
      cases op with
      | record jobId r =>
          have hrecorded : EventsRecorded r (db webhookEvents)
              (((StoreOp.events (.record jobId r)).apply db).2 webhookEvents) :=
            (record_events jobId r db).atomically .same
          exact hrecorded.storedFrom (hdelivered r rfl) h
      | recordIgnoredWorkspace r =>
          have hrecorded : Establishes (respond metadata) (recordIgnoredWorkspace r)
              (fun _ db' => EventsRecorded r (db webhookEvents) (db' webhookEvents)) db := by
            refine insertEvent_establishes (fun hnew db₁ h₁ => (establishes_done _).mpr ?_)
              ((establishes_done _).mpr .same)
            rw [h₁, Database.set_self]
            exact .stored hnew fun h => absurd h (by decide)
          exact (hrecorded.atomically .same).storedFrom (hdelivered r rfl) h
  | invoices op => exact hframe (by cases op <;> simp [StoreOp.tables, InvoiceStoreOp.tables])
  | trials op => exact hframe (by cases op <;> simp [StoreOp.tables, TrialStoreOp.tables])
  | transfers op => exact hframe (by cases op <;> simp [StoreOp.tables, TransferStoreOp.tables])

/-! ### Drafts never get ahead of their owned rows -/

/-- Every draft has an owned row, which has the invoice of the draft if it has one. -/
def DraftsOwned (db : Database Row) : Prop :=
  ∀ d ∈ db invoiceDrafts, ∃ o ∈ db ownedInvoices, o.draftId = some d.id ∧
    (d.providerInvoiceId ≠ none → o.providerInvoiceId = d.providerInvoiceId)

variable {db db' : Database Row}

/-- Owned rows may only gain invoices while the drafts stay. -/
theorem DraftsOwned.owners (h : DraftsOwned db)
    (hdrafts : db' invoiceDrafts = db invoiceDrafts)
    (howned : ∀ o ∈ db ownedInvoices, ∃ o' ∈ db' ownedInvoices, o'.draftId = o.draftId ∧
      (o.providerInvoiceId ≠ none → o'.providerInvoiceId = o.providerInvoiceId)) :
    DraftsOwned db' := by
  intro d hd
  obtain ⟨o, ho, hdraft, hinvoice⟩ := h d (hdrafts ▸ hd)
  obtain ⟨o', ho', hdraft', hkept⟩ := howned o ho
  refine ⟨o', ho', hdraft'.trans hdraft, fun hbound => ?_⟩
  have hsame := hinvoice hbound
  exact (hkept (hsame ▸ hbound)).trans hsame

/-- A write to one draft that takes its invoice away or keeps it. -/
theorem DraftsOwned.assign (h : DraftsOwned db) {condition : InvoiceDraftRow → Bool}
    {assign : InvoiceDraftRow → InvoiceDraftRow}
    (hdrafts : db' invoiceDrafts = assignWhere condition assign (db invoiceDrafts))
    (howned : db' ownedInvoices = db ownedInvoices)
    (hassign : ∀ d, (assign d).id = d.id ∧ ((assign d).providerInvoiceId = none ∨
      (assign d).providerInvoiceId = d.providerInvoiceId)) : DraftsOwned db' := by
  intro d' hd'
  rw [hdrafts] at hd'
  rw [howned]
  rcases mem_assignWhere.mp hd' with ⟨d, hd, -, rfl⟩ | ⟨hd, -⟩
  · obtain ⟨o, ho, hdraft, hinvoice⟩ := h d hd
    obtain ⟨hid, hfree | hsame⟩ := hassign d
    · exact ⟨o, ho, hid ▸ hdraft, fun hbound => absurd hfree hbound⟩
    · exact ⟨o, ho, hid ▸ hdraft, hsame ▸ hinvoice⟩
  · exact h d' hd

theorem bindProviderInvoice_keeps (tag : String) (id : InvoiceId) (atTime : ℤ)
    (hvalid : metadata.Valid ownedInvoices (db ownedInvoices)) :
    Establishes (respond metadata) (bindProviderInvoice tag id atTime) (fun _ db' =>
      db' invoiceDrafts = db invoiceDrafts ∧ ∀ o ∈ db ownedInvoices, ∃ o' ∈ db' ownedInvoices,
        o'.draftId = o.draftId ∧
          (o.providerInvoiceId ≠ none → o'.providerInvoiceId = o.providerInvoiceId)) db := by
  unfold bindProviderInvoice
  simp only [select_bind, establishes_call, respond_select]
  split
  · exact (establishes_raise _).mpr trivial
  · next owner rest hfound =>
      obtain ⟨howner, htag⟩ := List.mem_filter.mp
        (hfound ▸ List.mem_cons_self : owner ∈ (db ownedInvoices).filter fun o => o.tag == tag)
      split
      · next hfree =>
          -- the only row with the tag is the one that was read, and it has no invoice
          simp only [update_bind]
          refine establishes_update (fun _ => (establishes_done _).mpr ⟨set_owned_drafts, ?_⟩)
            fun _ => (establishes_raise _).mpr trivial
          rw [Database.set_self]
          intro o ho
          refine ⟨_, List.mem_map.mpr ⟨o, ho, rfl⟩, ?_, fun hbound => ?_⟩
          · split_ifs <;> rfl
          · rw [if_neg]
            intro hsame
            have hkey : o.tag = owner.tag := (beq_iff_eq.mp hsame).trans (beq_iff_eq.mp htag).symm
            obtain rfl := hvalid.eq_of_key ho howner hkey
            exact hbound hfree
      · split_ifs
        · refine establishes_updateRows fun _ => (establishes_done _).mpr ⟨set_owned_drafts, ?_⟩
          rw [Database.set_self]
          intro o ho
          refine ⟨_, List.mem_map.mpr ⟨o, ho, rfl⟩, ?_, fun _ => ?_⟩
          · split_ifs <;> rfl
          · split_ifs <;> rfl
        · exact (establishes_raise _).mpr trivial

theorem invoices_draftsOwned (op : InvoiceStoreOp) (hc : metadata.Consistent db)
    (h : DraftsOwned db) : DraftsOwned ((StoreOp.invoices op).apply db).2 := by
  have hchanged := invoices_changes op db
  unfold InvoicesChangedIn at hchanged
  generalize hdb' : ((StoreOp.invoices op).apply db).2 = db' at hchanged ⊢
  generalize hdrafts : db' invoiceDrafts = drafts' at hchanged
  generalize howned : db' ownedInvoices = owned' at hchanged
  cases hchanged with
  | same => exact h.owners hdrafts fun o ho => ⟨o, howned ▸ ho, rfl, fun _ => rfl⟩
  | saved =>
      intro d hd
      rw [hdrafts] at hd
      rw [howned]
      rcases List.mem_append.mp hd with hd | hd
      · obtain ⟨o, ho, hrest⟩ := h d hd
        exact ⟨o, List.mem_append.mpr (.inl ho), hrest⟩
      · refine ⟨trialOwner d, List.mem_append.mpr (.inr (List.mem_map.mpr ⟨d, hd, rfl⟩)), rfl,
          fun hbound => absurd ?_ hbound⟩
        obtain ⟨draft, -, rfl⟩ := List.mem_map.mp hd
        rfl
  | registered =>
      exact h.owners hdrafts fun o ho =>
        ⟨o, howned ▸ List.mem_append.mpr (.inl ho), rfl, fun _ => rfl⟩
  | @bound tag id atTime _ hop _ =>
      subst hop
      have hkeeps := (bindProviderInvoice_keeps tag id atTime (hc ownedInvoices)).atomically
        ⟨rfl, fun o ho => ⟨o, ho, rfl, fun _ => rfl⟩⟩
      subst hdb'
      exact h.owners hkeeps.1 hkeeps.2
  | @transitioned t _ =>
      intro d' hd'
      rw [hdrafts] at hd'
      rw [howned]
      obtain ⟨d, hd, rfl⟩ := List.mem_map.mp hd'
      obtain ⟨o, ho, hdraft, hinvoice⟩ := h d hd
      refine ⟨_, List.mem_map.mpr ⟨o, ho, rfl⟩, ?_⟩
      have hiff : (o.draftId == some t.draftId) = (d.id == t.draftId) := by simp [hdraft]
      simp only [hiff]
      split_ifs
      · exact ⟨hdraft, fun _ => rfl⟩
      · exact ⟨hdraft, hinvoice⟩
  | retried => exact h.assign hdrafts howned fun d => ⟨rfl, .inl rfl⟩
  | missed => exact h.assign hdrafts howned fun d => ⟨rfl, .inr rfl⟩

theorem record_draftsOwned {r : EventRecord} (hrecorded : Recorded r db db')
    (h : DraftsOwned db) : DraftsOwned db' := by
  cases hrecorded with
  | untouched hdrafts howned _ =>
      exact h.owners hdrafts fun o ho => ⟨o, howned ▸ ho, rfl, fun _ => rfl⟩
  | @owned event o _ ho howns hdrafts howned _ =>
      -- owned rows gain the invoice, and the draft gains it with its owned row
      have hgained : ∀ a ∈ db ownedInvoices, ∃ a' ∈ db' ownedInvoices, a'.draftId = a.draftId ∧
          (a.providerInvoiceId ≠ none → a'.providerInvoiceId = a.providerInvoiceId) := by
        intro a ha
        rw [howned]
        refine ⟨_, List.mem_map.mpr ⟨a, ha, rfl⟩, ?_, fun hbound => ?_⟩
        · split_ifs <;> rfl
        · rw [if_neg (by simp [hbound])]
      have howner : ∃ o' ∈ db' ownedInvoices, o'.draftId = o.draftId ∧
          o'.providerInvoiceId = some event.invoiceId := by
        rw [howned]
        refine ⟨_, List.mem_map.mpr ⟨o, ho, rfl⟩, ?_, ?_⟩
        · split_ifs <;> rfl
        · cases howns with
          | byId hid => simp [hid]
          | byTag _ hfree => simp [hfree]
      intro d' hd'
      rw [hdrafts] at hd'
      unfold createdDrafts at hd'
      have hkept : d' ∈ db invoiceDrafts → ∃ o' ∈ db' ownedInvoices, o'.draftId = some d'.id ∧
          (d'.providerInvoiceId ≠ none → o'.providerInvoiceId = d'.providerInvoiceId) := by
        intro hd
        obtain ⟨a, ha, hdraft, hinvoice⟩ := h d' hd
        obtain ⟨a', ha', hdraft', hkept⟩ := hgained a ha
        refine ⟨a', ha', hdraft'.trans hdraft, fun hbound => ?_⟩
        have hsame := hinvoice hbound
        exact (hkept (hsame ▸ hbound)).trans hsame
      cases hdraft : o.draftId with
      | none =>
          simp only [hdraft] at hd'
          exact hkept hd'
      | some draftId =>
          simp only [hdraft] at hd'
          rcases mem_assignWhere.mp hd' with ⟨d, hd, hcond, rfl⟩ | ⟨hd, -⟩
          · obtain ⟨o', ho', hdraft', hinvoice⟩ := howner
            simp only [Bool.and_eq_true, beq_iff_eq] at hcond
            exact ⟨o', ho', hdraft'.trans (hdraft.trans (congrArg some hcond.1.symm)),
              fun _ => hinvoice⟩
          · exact hkept hd

theorem apply_draftsOwned (op : StoreOp) (hc : metadata.Consistent db) (h : DraftsOwned db) :
    DraftsOwned (op.apply db).2 := by
  rcases apply_cases op with ⟨iop, rfl⟩ | ⟨jobId, r, rfl⟩ | hsame
  · exact invoices_draftsOwned iop hc h
  · exact record_draftsOwned (record_changes jobId r hc) h
  · exact h.owners (hsame db).drafts fun o ho => ⟨o, (hsame db).owners ▸ ho, rfl, fun _ => rfl⟩

/-! ### The ownership check never raises -/

/-- The check returns an owner that it left in the table, or nothing and has no effect. -/
theorem findOwner_run (event : CreditedInvoiceEvent) (receivedAt : ℤ) (db : Database Row) :
    ∃ owner db₁, (findOwner event receivedAt).run (respond metadata) db = (.ok owner, db₁) ∧
      (owner = none → db₁ = db) := by
  unfold findOwner
  simp only [select_bind, run_call, respond_select]
  split
  · unfold ownerByTag
    simp only
    split
    · exact ⟨none, db, rfl, fun _ => rfl⟩
    · simp only [select_bind, run_call, respond_select]
      split
      · next owner _ =>
          split
          · exact ⟨none, db, rfl, fun _ => rfl⟩
          · simp only [bindOwner, update_bind, run_call, respond]
            split_ifs
            · exact ⟨some owner, _, rfl, by simp⟩
            · exact ⟨none, db, rfl, fun _ => rfl⟩
      · exact ⟨none, db, rfl, fun _ => rfl⟩
  · next owner _ _ =>
      unfold confirmOwner
      split
      · exact ⟨some owner, db, rfl, by simp⟩
      · rw [select_bind, run_call, respond_select]
        split_ifs
        · exact ⟨none, db, rfl, fun _ => rfl⟩
        · exact ⟨some owner, db, rfl, by simp⟩

/-- A tag names the owner only if no owned row has the invoice. -/
theorem findOwner_free (event : CreditedInvoiceEvent) (receivedAt : ℤ)
    (hvalid : metadata.Valid ownedInvoices (db ownedInvoices)) :
    Establishes (respond metadata) (findOwner event receivedAt) (fun owner _ =>
      ∀ o ∈ owner, ∀ o' ∈ db ownedInvoices, o'.providerInvoiceId = some event.invoiceId →
        o' = o) db := by
  unfold findOwner
  simp only [select_bind, establishes_call, respond_select]
  split
  · next hnone =>
      have hfree : ∀ o' ∈ db ownedInvoices, o'.providerInvoiceId ≠ some event.invoiceId := by
        intro o' ho' hbound
        have hmem : o' ∈ (db ownedInvoices).filter
            fun o => o.providerInvoiceId == some event.invoiceId :=
          List.mem_filter.mpr ⟨ho', beq_iff_eq.mpr hbound⟩
        rw [hnone] at hmem
        exact absurd hmem List.not_mem_nil
      exact fun _ _ _ _ _ o' ho' hbound => absurd hbound (hfree o' ho')
  · next owner rest howners =>
      obtain ⟨howner, hbound⟩ := List.mem_filter.mp (howners ▸ List.mem_cons_self :
        owner ∈ (db ownedInvoices).filter fun o => o.providerInvoiceId == some event.invoiceId)
      have hkey : ∀ o' ∈ db ownedInvoices, o'.providerInvoiceId = some event.invoiceId →
          o' = owner := by
        intro o' ho' hbound'
        refine hvalid.eq_of_clash ho' howner ?_
        have hshared : sameNonNull o'.providerInvoiceId owner.providerInvoiceId = true :=
          sameNonNull_iff.mpr ⟨_, hbound', beq_iff_eq.mp hbound⟩
        simp [metadata, uniqueConflict, hshared]
      have hsome : ∀ o ∈ some owner, ∀ o' ∈ db ownedInvoices,
          o'.providerInvoiceId = some event.invoiceId → o' = o := by
        intro o ho
        obtain rfl := Option.some.inj ho
        exact hkey
      unfold confirmOwner
      split
      · exact (establishes_done _).mpr hsome
      · simp only [select_bind, establishes_call, respond_select]
        exact establishes_ite _ (fun _ => (establishes_done _).mpr (by simp))
          fun _ => (establishes_done _).mpr hsome

/-- The draft of the owner can take the invoice: no other draft has it. -/
theorem createdDrafts_valid (hc : metadata.Consistent db) (h : DraftsOwned db)
    {o : OwnedInvoiceRow} {event : CreditedInvoiceEvent} (receivedAt : ℤ)
    (honly : ∀ o' ∈ db ownedInvoices, o'.providerInvoiceId = some event.invoiceId → o' = o) :
    metadata.Valid invoiceDrafts (createdDrafts o event receivedAt (db invoiceDrafts)) := by
  unfold createdDrafts
  cases hdraft : o.draftId with
  | none => exact hc invoiceDrafts
  | some draftId =>
      have hother : ∀ d ∈ db invoiceDrafts, d.providerInvoiceId = some event.invoiceId →
          d.id = draftId := by
        intro d hd hbound
        obtain ⟨o', ho', hdraft', hinvoice⟩ := h d hd
        obtain rfl := honly o' ho' ((hinvoice (by simp [hbound])).trans hbound)
        exact Option.some.inj (hdraft'.symm.trans hdraft)
      have hkey : ∀ {a b : InvoiceDraftRow}, metadata.clash invoiceDrafts a b = false →
          a.id = draftId → b.id ≠ draftId := by
        intro a b hab ha hb
        simp [metadata, uniqueConflict, ha, hb] at hab
      refine (hc invoiceDrafts).assignWhere (fun d hd _ => (hc invoiceDrafts).1 d hd)
        (fun a _ b hb hca hab _ => ?_) fun a _ b _ hca hcb hab => ?_
      · simp only [Bool.and_eq_true, beq_iff_eq] at hca
        have hne : b.id ≠ draftId := hkey hab hca.1
        simp only [metadata, uniqueConflict, Bool.or_eq_false_iff] at hab ⊢
        refine ⟨hab.1, Bool.eq_false_iff.mpr fun hshared => ?_⟩
        obtain ⟨x, hx, hbound⟩ := sameNonNull_iff.mp hshared
        exact hne (hother b hb (hbound.trans hx.symm))
      · simp only [Bool.and_eq_true, beq_iff_eq] at hca hcb
        exact absurd hcb.1 (hkey hab hca.1)

theorem createOwnedDraft_run {o : OwnedInvoiceRow} {event : CreditedInvoiceEvent} {receivedAt : ℤ}
    (hvalid : metadata.Valid invoiceDrafts (createdDrafts o event receivedAt (db invoiceDrafts))) :
    (createOwnedDraft o event receivedAt).run (respond metadata) db =
      (.ok (), db.set invoiceDrafts (createdDrafts o event receivedAt (db invoiceDrafts))) := by
  unfold createOwnedDraft
  unfold createdDrafts at hvalid ⊢
  cases hdraft : o.draftId with
  | none => simp
  | some draftId =>
      simp only [hdraft] at hvalid ⊢
      exact run_updateRows hvalid

theorem ownsInvoice_run (hc : metadata.Consistent db) (h : DraftsOwned db)
    (event : CreditedInvoiceEvent) (receivedAt : ℤ) : ∃ owned db₁,
      (ownsInvoice event receivedAt).run (respond metadata) db = (.ok owned, db₁) ∧
        (owned = false → db₁ = db) := by
  obtain ⟨owner, db₁, hrun, hnone⟩ := findOwner_run event receivedAt db
  have hdrafts : db₁ invoiceDrafts = db invoiceDrafts :=
    (findOwner_writes event receivedAt).establishes db owner db₁ hrun invoiceDrafts (by decide)
  have honly := findOwner_free event receivedAt (hc ownedInvoices) owner db₁ hrun
  unfold ownsInvoice
  rw [run_bind, hrun]
  cases owner with
  | none => exact ⟨false, db₁, rfl, fun _ => hnone rfl⟩
  | some o =>
      have hvalid := createdDrafts_valid hc h receivedAt (honly o rfl)
      rw [← hdrafts] at hvalid
      refine ⟨true, db₁.set invoiceDrafts (createdDrafts o event receivedAt (db₁ invoiceDrafts)),
        ?_, by simp⟩
      simp only
      rw [run_bind, createOwnedDraft_run hvalid]
      rfl

/-- The check neither reads nor writes the events. -/
theorem ownsInvoice_ignores (event : CreditedInvoiceEvent) (receivedAt : ℤ) :
    (ownsInvoice event receivedAt).Issues fun st => st.Ignores webhookEvents := by
  have howned : ownedInvoices ≠ webhookEvents := by decide
  have hdrafts : invoiceDrafts ≠ webhookEvents := by decide
  unfold ownsInvoice
  refine .bind ?_ fun owner => ?_
  · unfold findOwner
    simp only [select_bind, Program.issues_call]
    refine ⟨howned, fun owners => ?_⟩
    cases owners with
    | nil =>
        simp only [ownerByTag, select_bind, Program.issues_ite, Program.issues_call]
        refine ⟨fun _ => trivial, fun _ => ⟨howned, fun found => ?_⟩⟩
        split
        · simp only [bindOwner, update_bind, Program.issues_ite, Program.issues_call,
            Option.forall]
          exact ⟨fun _ => trivial, fun _ => ⟨howned, trivial, fun _ => trivial⟩⟩
        · trivial
    | cons owner rest =>
        simp only [confirmOwner, select_bind, Program.issues_ite, Program.issues_call]
        exact ⟨fun _ => trivial, fun _ => ⟨howned, fun _ => ⟨fun _ => trivial,
          fun _ => trivial⟩⟩⟩
  · cases owner with
    | none => trivial
    | some o =>
        simp only [createOwnedDraft]
        cases o.draftId with
        | none => trivial
        | some draftId =>
            simp only [bind_assoc, issues_updateRows_bind]
            exact ⟨hdrafts, fun _ => trivial⟩

/-! ### Storing, marking and queueing -/

theorem insertEvent_stored {A : Type} {r : EventRecord} {row : WebhookEventRow}
    (hrow : row ∈ db webhookEvents) (hid : row.id = r.event.eventId) (outcome : EventWriteResult)
    (f : Bool → Txn A) : (insertEvent r outcome >>= f).run (respond metadata) db =
      (f false).run (respond metadata) db := by
  have hclash : ¬ metadata.accepts db webhookEvents (eventRow r outcome) = true := by
    intro haccepts
    have hfree := (Schema.accepts_iff.mp haccepts).2.1 row hrow
    simp [metadata, uniqueConflict, eventRow, hid] at hfree
  simp only [insertEvent, insert_bind, run_call, respond, Schema.insertRows_singleton]
  rw [if_neg hclash]

theorem eventRow_accepted {r : EventRecord} (hnew : ∀ e ∈ db webhookEvents, e.id ≠ r.event.eventId)
    (outcome : EventWriteResult) :
    metadata.accepts db webhookEvents (eventRow r outcome) = true := by
  refine Schema.accepts_iff.mpr ⟨rfl, fun e he => ?_, by simp [metadata, foreignKeys]⟩
  simpa [metadata, uniqueConflict, eventRow] using hnew e he

theorem insertEvent_new {A : Type} {r : EventRecord}
    (hnew : ∀ e ∈ db webhookEvents, e.id ≠ r.event.eventId) (outcome : EventWriteResult)
    (f : Bool → Txn A) : (insertEvent r outcome >>= f).run (respond metadata) db =
      (f true).run (respond metadata)
        (db.set webhookEvents (db webhookEvents ++ [eventRow r outcome])) := by
  have haccepts := eventRow_accepted hnew outcome
  simp only [insertEvent, insert_bind, run_call, respond, Schema.insertRows_singleton]
  rw [if_pos haccepts]

theorem withOutcome_valid {events : List WebhookEventRow} (h : metadata.Valid webhookEvents events)
    (eventId : EventId) (outcome : EventWriteResult) :
    metadata.Valid webhookEvents (withOutcome eventId outcome events) :=
  h.assignWhere (fun e he _ => h.1 e he) (fun _ _ _ _ _ hab _ => hab)
    fun _ _ _ _ _ _ hab => hab

theorem markOutcome_run (h : metadata.Valid webhookEvents (db webhookEvents)) (eventId : EventId)
    (outcome : EventWriteResult) : (markOutcome eventId outcome).run (respond metadata) db =
      (.ok outcome, db.set webhookEvents (withOutcome eventId outcome (db webhookEvents))) := by
  unfold markOutcome
  rw [run_updateRows (withOutcome_valid h eventId outcome)]
  rfl

/-- The event is stored, in a table that may hold anything else. -/
structure Stored (eventId : EventId) (events : List WebhookEventRow) : Prop where
  valid : metadata.Valid webhookEvents events
  stored : ∃ e ∈ events, e.id = eventId

/-- The queueing does the same whatever else the event table holds. -/
theorem queueTransfer_run (jobId : TransferJobId) (event : CreditedInvoiceEvent)
    (net receivedAt : ℤ) (db : Database Row) : ∃ o jobs,
      (o = .queued ∨ o = .duplicateInvoice) ∧ ∀ events, Stored event.eventId events →
        (queueTransfer jobId event net receivedAt).run (respond metadata)
            (db.set webhookEvents events) = (.ok o, (db.set transferJobs jobs).set webhookEvents
          (if o = .queued then events else withOutcome event.eventId o events)) := by
  have hjobs : ∀ events, (db.set webhookEvents events) transferJobs = db transferJobs :=
    fun events => Database.set_of_ne _ (by decide) _
  have hmark : ∀ events, Stored event.eventId events →
      (markDuplicate event.eventId).run (respond metadata) (db.set webhookEvents events) =
        (.ok .duplicateInvoice, (db.set transferJobs (db transferJobs)).set webhookEvents
          (withOutcome event.eventId .duplicateInvoice events)) := by
    intro events hstored
    have hvalid : metadata.Valid webhookEvents ((db.set webhookEvents events) webhookEvents) := by
      rw [Database.set_self]
      exact hstored.valid
    rw [markDuplicate, markOutcome_run hvalid, Database.set_self, Database.set_set,
      Database.set_eq_self]
  by_cases hqueued : ((db transferJobs).filter fun j : TransferJobRow =>
      j.invoiceId == event.invoiceId) = [] ∧
    metadata.check transferJobs (newJob jobId event net receivedAt) = true ∧
    ∀ j ∈ db transferJobs, metadata.clash transferJobs j (newJob jobId event net receivedAt) = false
  · obtain ⟨hnone, hcheck, hclash⟩ := hqueued
    refine ⟨.queued, db transferJobs ++ [newJob jobId event net receivedAt], .inl rfl,
      fun events hstored => ?_⟩
    have haccepts : metadata.accepts (db.set webhookEvents events) transferJobs
        (newJob jobId event net receivedAt) = true := by
      refine Schema.accepts_iff.mpr ⟨hcheck, by rwa [hjobs], ?_⟩
      rintro ref hmem
      obtain rfl := List.mem_singleton.mp hmem
      obtain ⟨e, he, hid⟩ := hstored.stored
      exact ⟨e, (Database.set_self db webhookEvents events).symm ▸ he, hid⟩
    unfold queueTransfer
    simp only [select_bind, run_call, respond_select, hjobs, hnone, insert_bind]
    simp only [respond, Schema.insertRows_singleton, if_pos haccepts, hjobs]
    rw [Database.set_comm _ (by decide : webhookEvents ≠ transferJobs)]
    rfl
  · refine ⟨.duplicateInvoice, db transferJobs, .inr rfl, fun events hstored => ?_⟩
    rw [if_neg (by decide), ← hmark events hstored]
    unfold queueTransfer
    simp only [select_bind, run_call, respond_select, hjobs]
    split
    · rfl
    · next hnone =>
        have hrefused : ¬ metadata.accepts (db.set webhookEvents events) transferJobs
            (newJob jobId event net receivedAt) = true := by
          intro haccepts
          obtain ⟨hcheck, hclash, -⟩ := Schema.accepts_iff.mp haccepts
          rw [hjobs] at hclash
          exact hqueued ⟨hnone, hcheck, hclash⟩
        simp only [insert_bind, run_call, respond, Schema.insertRows_singleton,
          if_neg hrefused]

/-! ### First delivery and redelivery -/

/-- What a first delivery does once the row of its credited event is stored. -/
def decideCredited (jobId : TransferJobId) (event : CreditedInvoiceEvent) (net receivedAt : ℤ) :
    Txn EventWriteResult := do
  match ← ownsInvoice event receivedAt with
  | false => markInvoiceUnknown event.eventId
  | true => queueTransfer jobId event net receivedAt

/-- Both deliveries decide alike, whatever else the event table holds. -/
theorem decided_alike (hc : metadata.Consistent db) (h : DraftsOwned db) (jobId : TransferJobId)
    (event : CreditedInvoiceEvent) (net : ℤ) (r : EventRecord) :
    ∃ (o : EventWriteResult) (db' : Database Row), ∀ events, Stored event.eventId events →
        (decideCredited jobId event net r.receivedAt).run (respond metadata)
            (db.set webhookEvents events) = (.ok o, db'.set webhookEvents
          (if o = .queued then events else withOutcome event.eventId o events)) ∧
        ((∀ e ∈ events, e.id = event.eventId → e.outcome = .invoiceUnknown) →
          ∃ o', (promoteStored jobId r event net).run (respond metadata)
            (db.set webhookEvents events) =
              (.ok o', db'.set webhookEvents (withOutcome event.eventId o events))) := by
  obtain ⟨owned, db₁, hrun, hsame⟩ := ownsInvoice_run hc h event r.receivedAt
  have howns : ∀ events, (ownsInvoice event r.receivedAt).run (respond metadata)
      (db.set webhookEvents events) = (.ok owned, db₁.set webhookEvents events) := by
    intro events
    rw [run_set (ownsInvoice_ignores event r.receivedAt), hrun]
  unfold decideCredited promoteStored
  cases owned with
  | false =>
      obtain rfl := hsame rfl
      refine ⟨.invoiceUnknown, db₁, fun events hstored => ⟨?_, fun hunknown => ?_⟩⟩
      · have hvalid : metadata.Valid webhookEvents
            ((db₁.set webhookEvents events) webhookEvents) := by
          rw [Database.set_self]
          exact hstored.valid
        rw [run_bind, howns]
        simp only
        rw [markInvoiceUnknown, markOutcome_run hvalid, Database.set_self, Database.set_set,
          if_neg (by decide)]
      · have hidle : withOutcome event.eventId .invoiceUnknown events = events := by
          refine (List.map_congr_left fun e he => ?_).trans (List.map_id _)
          split_ifs with hid
          · rw [← hunknown e he (beq_iff_eq.mp hid)]
            rfl
          · rfl
        refine ⟨.duplicateEvent, ?_⟩
        rw [run_bind, howns, hidle]
        rfl
  | true =>
      obtain ⟨o, jobs, ho, hqueue⟩ := queueTransfer_run jobId event net r.receivedAt db₁
      refine ⟨o, db₁.set transferJobs jobs, fun events hstored => ⟨?_, fun _ => ⟨o, ?_⟩⟩⟩
      · rw [run_bind, howns]
        exact hqueue events hstored
      · rw [run_bind, howns]
        simp only
        rw [run_bind, hqueue events hstored]
        rcases ho with rfl | rfl
        · have hvalid : metadata.Valid webhookEvents
              (((db₁.set transferJobs jobs).set webhookEvents events) webhookEvents) := by
            rw [Database.set_self]
            exact hstored.valid
          simp only [if_true]
          rw [markOutcome_run hvalid, Database.set_self, Database.set_set]
        · rfl

section
variable {jobId : TransferJobId} {r : EventRecord} {event : CreditedInvoiceEvent} {net : ℤ}
variable {row : WebhookEventRow}

theorem record_first (hevent : r.event = .credited event) (hnet : r.netAmount = some net)
    (hnew : ∀ e ∈ db webhookEvents, e.id ≠ r.event.eventId) :
    (EventRecording.record jobId r).run (respond metadata) db =
      (decideCredited jobId event net r.receivedAt).run (respond metadata)
        (db.set webhookEvents (db webhookEvents ++ [eventRow r .queued])) := by
  have hstep : EventRecording.record jobId r = insertEvent r .queued >>= fun
      | false => recoverDuplicate jobId r
      | true => decideCredited jobId event net r.receivedAt := by
    simp only [EventRecording.record, hevent, hnet, initialOutcome, reduceCtorEq, if_false]
    rfl
  rw [hstep, insertEvent_new hnew]

/-- The stored row of the event is the one that a duplicate reads. -/
theorem stored_row (hc : metadata.Consistent db) (hrow : row ∈ db webhookEvents)
    {eventId : EventId} (hid : row.id = eventId) :
    (db webhookEvents).filter (fun e : WebhookEventRow => e.id == eventId) = [row] := by
  refine (hc webhookEvents).filter_eq_singleton (fun a b ha hb => ?_) hrow (beq_iff_eq.mpr hid)
  exact metadata.clash_of_key _ a b ((beq_iff_eq.mp ha).trans (beq_iff_eq.mp hb).symm)

/-- A delivery of an event whose id is stored goes to the recovery, or ends at once. -/
theorem record_stored (hrow : row ∈ db webhookEvents) (hid : row.id = r.event.eventId) :
    (EventRecording.record jobId r).run (respond metadata) db =
      (recoverDuplicate jobId r).run (respond metadata) db := by
  unfold EventRecording.record
  split
  · next event hevent =>
      simp only [recordTransferEvent, select_bind, run_call, respond_select]
      rw [insertEvent_stored hrow hid]
      simp only [recoverDuplicate, hevent]
  · exact insertEvent_stored hrow hid _ _

theorem recoverDuplicate_inert (hc : metadata.Consistent db) (hrow : row ∈ db webhookEvents)
    (hid : row.id = r.event.eventId)
    (h : row.outcome ≠ .invoiceUnknown ∨ row.payloadHash ≠ r.payloadHash) :
    (recoverDuplicate jobId r).run (respond metadata) db = (.ok .duplicateEvent, db) := by
  unfold recoverDuplicate
  split
  · next event net hevent _ =>
      have hid' : row.id = event.eventId := hid.trans (by rw [hevent]; rfl)
      have hother : (row.payloadHash != r.payloadHash || row.outcome != .invoiceUnknown) =
          true := by
        simp only [Bool.or_eq_true, bne_iff_ne]
        exact h.symm
      simp only [select_bind, run_call, respond_select, stored_row hc hrow hid', hother, if_true]
      rfl
  · rfl

theorem recoverDuplicate_promotes (hc : metadata.Consistent db) (hrow : row ∈ db webhookEvents)
    (hid : row.id = r.event.eventId) (hunknown : row.outcome = .invoiceUnknown)
    (hhash : row.payloadHash = r.payloadHash) (hevent : r.event = .credited event)
    (hnet : r.netAmount = some net) : (recoverDuplicate jobId r).run (respond metadata) db =
      (promoteStored jobId r event net).run (respond metadata) db := by
  have hid' : row.id = event.eventId := hid.trans (by rw [hevent]; rfl)
  unfold recoverDuplicate
  simp only [hevent, hnet, select_bind, run_call, respond_select, stored_row hc hrow hid',
    hhash, hunknown, bne_self_eq_false, Bool.or_self, Bool.false_eq_true, if_false]

/-- The row of the event goes to the end and has another receipt. -/
theorem events_same {events : List WebhookEventRow} (h : metadata.Valid webhookEvents events)
    (hrow : row ∈ events) {r₀ : EventRecord} (hfrom : row = eventRow r₀ row.outcome)
    (hevent : r₀.event = r.event) (hhash : r₀.payloadHash = r.payloadHash)
    (o : EventWriteResult) :
    ((withOutcome r.event.eventId o events).map (withoutReceipt r.event.eventId)).Perm
      ((events.filter (fun e : WebhookEventRow => e.id != r.event.eventId) ++
        [eventRow r o]).map (withoutReceipt r.event.eventId)) := by
  have hid : row.id = r.event.eventId := by rw [hfrom, ← hevent]; rfl
  have hone : events.filter (fun e : WebhookEventRow => e.id == r.event.eventId) = [row] := by
    refine h.filter_eq_singleton (fun a b ha hb => ?_) hrow (beq_iff_eq.mpr hid)
    exact metadata.clash_of_key _ a b ((beq_iff_eq.mp ha).trans (beq_iff_eq.mp hb).symm)
  have hsplit : events.Perm
      (events.filter (fun e : WebhookEventRow => e.id != r.event.eventId) ++ [row]) := by
    rw [← hone]
    exact (List.filter_append_perm (fun e : WebhookEventRow => e.id == r.event.eventId)
      events).symm.trans List.perm_append_comm
  have hother : ∀ e ∈ events.filter (fun e : WebhookEventRow => e.id != r.event.eventId),
      e.id ≠ r.event.eventId := fun e he => by simpa using (List.mem_filter.mp he).2
  have hreceipt : withoutReceipt r.event.eventId { row with outcome := o } =
      withoutReceipt r.event.eventId (eventRow r o) := by
    rw [hfrom]
    simp [withoutReceipt, eventRow, hevent, hhash]
  calc (withOutcome r.event.eventId o events).map (withoutReceipt r.event.eventId)
      |>.Perm ((withOutcome r.event.eventId o (events.filter
          (fun e : WebhookEventRow => e.id != r.event.eventId) ++ [row])).map
            (withoutReceipt r.event.eventId)) := (hsplit.map _).map _
    _ = _ := by rw [withOutcome_append hother hid, List.map_append, List.map_append, List.map_singleton,
      List.map_singleton, hreceipt]
end

/-! ### The whole delivery -/

/-- The redelivery of an unknown credited event against its first delivery. -/
theorem promoted_same (hc : metadata.Consistent db) (h : DraftsOwned db) (jobId : TransferJobId)
    {r : EventRecord} {event : CreditedInvoiceEvent} {net : ℤ} (hevent : r.event = .credited event)
    (hnet : r.netAmount = some net) {row : WebhookEventRow} (hrow : row ∈ db webhookEvents)
    (hunknown : row.outcome = .invoiceUnknown) {r₀ : EventRecord}
    (hfrom : row = eventRow r₀ row.outcome) (hevent₀ : r₀.event = r.event)
    (hhash : r₀.payloadHash = r.payloadHash) :
    SameExceptReceipt r.event.eventId ((StoreOp.events (.record jobId r)).apply db).2
      ((StoreOp.events (.record jobId r)).apply (undelivered r.event.eventId db)).2 := by
  have hid : row.id = r.event.eventId := by rw [hfrom, ← hevent₀]; rfl
  have hrow_hash : row.payloadHash = r.payloadHash := by rw [hfrom, ← hhash]; rfl
  have heventId : event.eventId = r.event.eventId := by rw [hevent]; rfl
  let others := (db webhookEvents).filter fun e : WebhookEventRow => e.id != r.event.eventId
  have hother : ∀ e ∈ others, e.id ≠ r.event.eventId :=
    fun e he => by simpa using (List.mem_filter.mp he).2
  obtain ⟨o, db', hdecided⟩ := decided_alike hc h jobId event net r
  -- the redelivery, which finds the events as they are
  obtain ⟨o', hagain⟩ := (hdecided (db webhookEvents) ⟨hc webhookEvents, row, hrow,
      hid.trans heventId.symm⟩).2 fun e he heid => by
    have hsame : e = row :=
      (hc webhookEvents).eq_of_key he hrow (heid.trans (heventId.trans hid.symm))
    rw [hsame, hunknown]
  rw [Database.set_eq_self] at hagain
  have hredelivered : (StoreOp.events (.record jobId r)).apply db =
      (.ok o', db'.set webhookEvents (withOutcome r.event.eventId o (db webhookEvents))) := by
    refine atomically_of_run ?_
    change (EventRecording.record jobId r).run (respond metadata) db = _
    rw [record_stored hrow hid, recoverDuplicate_promotes hc hrow hid hunknown hrow_hash hevent
      hnet, hagain, heventId]
  -- the first delivery, which stores its row before it decides
  have hothers : (undelivered r.event.eventId db) webhookEvents = others := Database.set_self _ _ _
  have hnew : ∀ e ∈ (undelivered r.event.eventId db) webhookEvents, e.id ≠ r.event.eventId := by
    rw [hothers]
    exact hother
  have hvalid : metadata.Valid webhookEvents others :=
    ⟨fun e he => (hc webhookEvents).1 e (List.mem_filter.mp he).1,
      (hc webhookEvents).2.sublist List.filter_sublist⟩
  have hstored : Stored event.eventId (others ++ [eventRow r .queued]) := by
    refine ⟨?_, eventRow r .queued, by simp, heventId.symm⟩
    have hgrown := Schema.Valid.append (by rw [hothers]; exact hvalid)
      (eventRow_accepted hnew .queued)
    rwa [hothers] at hgrown
  have hfirst := (hdecided _ hstored).1
  have hmarked : (if o = .queued then others ++ [eventRow r .queued]
      else withOutcome event.eventId o (others ++ [eventRow r .queued])) =
        others ++ [eventRow r o] := by
    split_ifs with ho
    · rw [ho]
    · rw [heventId]
      exact withOutcome_append hother rfl o
  rw [hmarked] at hfirst
  have hdelivered : (StoreOp.events (.record jobId r)).apply (undelivered r.event.eventId db) =
      (.ok o, db'.set webhookEvents (others ++ [eventRow r o])) := by
    refine atomically_of_run ?_
    change (EventRecording.record jobId r).run (respond metadata) _ = _
    rw [record_first hevent hnet hnew, hothers, undelivered, Database.set_set]
    exact hfirst
  rw [hredelivered, hdelivered]
  refine ⟨?_, fun t ht => ?_⟩
  · simp only [Database.set_self]
    exact events_same (hc webhookEvents) hrow hfrom hevent₀ hhash o
  · simp only [Database.set_of_ne _ ht]

/-- What every later delivery of a stored event does. -/
theorem record_redelivered (hc : metadata.Consistent db) (h : DraftsOwned db)
    (hstored : ∀ e ∈ db webhookEvents, StoredFrom Delivered e) (jobId : TransferJobId)
    {r : EventRecord} (hhash : ∀ r₀, Delivered r₀ → r₀.payloadHash = r.payloadHash →
      r₀.event = r.event)
    (hnet : ∀ event, r.event = .credited event → ∀ r₀ net, Delivered r₀ → r₀.event = r.event →
      r₀.netAmount = some net → r.netAmount = some net ∧ 0 < net)
    {row : WebhookEventRow} (hrow : row ∈ db webhookEvents) (hid : row.id = r.event.eventId) :
    Redelivered jobId r row db where
  inert hinert := by
    refine atomically_of_run ?_
    change (EventRecording.record jobId r).run (respond metadata) db = _
    rw [record_stored hrow hid, recoverDuplicate_inert hc hrow hid hinert]
  credited hunknown hrow_hash := by
    obtain ⟨r₀, hr₀, hfrom, hcredited⟩ := hstored row hrow
    have hhash₀ : r₀.payloadHash = r.payloadHash := by rw [← hrow_hash, hfrom]; rfl
    have hevent₀ := hhash r₀ hr₀ hhash₀
    obtain ⟨event, net, hevent, hnet₀⟩ := hcredited hunknown
    obtain ⟨hnet, hpos⟩ := hnet event (hevent₀ ▸ hevent) r₀ net hr₀ hevent₀ hnet₀
    exact ⟨event, net, hevent₀ ▸ hevent, hnet, hpos⟩
  promoted hunknown hrow_hash := by
    obtain ⟨r₀, hr₀, hfrom, hcredited⟩ := hstored row hrow
    have hhash₀ : r₀.payloadHash = r.payloadHash := by rw [← hrow_hash, hfrom]; rfl
    have hevent₀ := hhash r₀ hr₀ hhash₀
    obtain ⟨event, net, hevent, hnet₀⟩ := hcredited hunknown
    obtain ⟨hnet, -⟩ := hnet event (hevent₀ ▸ hevent) r₀ net hr₀ hevent₀ hnet₀
    exact promoted_same hc h jobId (hevent₀ ▸ hevent) hnet hrow hunknown hfrom hevent₀ hhash₀

/-- In every state that deliveries and store transactions reach from the empty database, one
more delivery of a stored event does nothing or what a first delivery would do. -/
theorem redelivered {ops : List StoreOp} {jobId : TransferJobId} {event : VerifiedEvent}
    {payloadHash : String} {receivedAt : ℤ} (hweb : ∀ op ∈ ops, FromWebhook op)
    (hhash : ∀ r ∈ ops.filterMap delivery, r.payloadHash = payloadHash → r.event = event)
    {row : WebhookEventRow} (hrow : row ∈ applyAll ops emptyDatabase webhookEvents)
    (hid : row.id = event.eventId) :
    Redelivered jobId (receivedRecord event payloadHash receivedAt) row
      (applyAll ops emptyDatabase) := by
  have hstart : metadata.Consistent emptyDatabase ∧ DraftsOwned emptyDatabase ∧
      ∀ e ∈ emptyDatabase webhookEvents, StoredFrom (· ∈ ops.filterMap delivery) e :=
    ⟨emptyDatabase_consistent, by simp [DraftsOwned, emptyDatabase], by simp [emptyDatabase]⟩
  obtain ⟨hc, howned, hstored⟩ := applyAll_invariant
    (fun db => metadata.Consistent db ∧ DraftsOwned db ∧
      ∀ e ∈ db webhookEvents, StoredFrom (· ∈ ops.filterMap delivery) e)
    (fun op hop db hdb => ⟨StoreOp.apply_consistent hdb.1 op, apply_draftsOwned op hdb.1 hdb.2.1,
      apply_storedFrom (fun r hr => List.mem_filterMap.mpr ⟨op, hop, hr⟩) hdb.2.2⟩) hstart
  refine record_redelivered hc howned hstored jobId hhash ?_ hrow hid
  intro credited hcredited r₀ net hr₀ hevent₀ hnet₀
  obtain ⟨op, hop, hdel⟩ := List.mem_filterMap.mp hr₀
  have hcredited₀ : r₀.event = .credited credited := hevent₀.trans hcredited
  have hcalc := (hweb op hop).net hdel hcredited₀ hnet₀
  obtain rfl : event = .credited credited := hcredited
  refine ⟨?_, (calculateNetAmount_ok hcalc).2.2.2⟩
  simp [receivedRecord, hcalc, Except.toOption]

def earlyEvent : CreditedInvoiceEvent where
  eventId := "e"
  invoiceId := "i"
  amount := 5000
  fee := 50
  workspaceId := "w"
  tags := ["trial-smoke:d"]

/-- A credit that comes before its smoke invoice is registered. -/
def earlyCredit : List StoreOp :=
  let draft : InvoiceDraft :=
    { id := "d", batchId := "sandbox-smoke", ordinal := 0, payerName := "p", payerTaxId := "t"
      amount := 5000, tag := "trial-smoke:d", status := .pending, attempts := 0, createdAt := 0 }
  [.events (.record "j" (receivedRecord (.credited earlyEvent) "h" 1)),
    .invoices (.registerSmoke draft 2)]

/-- Its row before and its job after the redelivery. -/
theorem redelivered_earlyCredit :
    Redelivered "k" (receivedRecord (.credited earlyEvent) "h" 3)
        (eventRow (receivedRecord (.credited earlyEvent) "h" 1) .invoiceUnknown)
        (applyAll earlyCredit emptyDatabase) ∧
      (applyAll earlyCredit emptyDatabase transferJobs).length = 0 ∧
      (((StoreOp.events (.record "k" (receivedRecord (.credited earlyEvent) "h" 3))).apply
        (applyAll earlyCredit emptyDatabase)).2 transferJobs).length = 1 := by
  refine ⟨redelivered ?_ (by decide) (by decide) rfl, by decide, by decide⟩
  intro op hop
  simp only [earlyCredit, List.mem_cons, List.not_mem_nil, or_false] at hop
  rcases hop with rfl | rfl
  · exact ⟨_, _, _, rfl⟩
  · trivial

end StarkbankTrial.RedeliveredEvents
