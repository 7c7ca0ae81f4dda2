import StarkbankTrial.StoreOperations

/-!
# Transfer jobs and queued events correspond

The outcome of a credited event is first stored as queued and corrected later in the
same transaction. `Pending` is what holds in between: the event is stored, it may or
may not say queued, and no job names it yet. Every branch of the recording goes from
there back to `Corresponds`, which is kept from transaction to transaction.
-/
namespace StarkbankTrial.EventJobCorrespondence
open Domain InteractivePrograms RelationalTables Transaction DatabaseSchema
open DatabaseSchema.Table
open EventRecording StoreOperations Program

/-- The amounts and keys that a job is created with. -/
structure WellFormedJob (j : TransferJobRow) : Prop where
  amount_pos : 0 < j.amount
  fee_nonneg : 0 ≤ j.fee
  netAmount_eq : j.netAmount = j.amount - j.fee
  netAmount_pos : 0 < j.netAmount
  externalId_eq : j.externalId = (buildTransferCommand j.invoiceId j.netAmount).externalId
  tag_eq : j.tag = (buildTransferCommand j.invoiceId j.netAmount).tag

theorem WellFormedJob.of_same {j j' : TransferJobRow} (h : WellFormedJob j)
    (hs : SameTransfer j j') : WellFormedJob j' where
  amount_pos := by rw [hs.amount]; exact h.amount_pos
  fee_nonneg := by rw [hs.fee]; exact h.fee_nonneg
  netAmount_eq := by rw [hs.netAmount, hs.amount, hs.fee]; exact h.netAmount_eq
  netAmount_pos := by rw [hs.netAmount]; exact h.netAmount_pos
  externalId_eq := by rw [hs.externalId, hs.invoiceId, hs.netAmount]; exact h.externalId_eq
  tag_eq := by rw [hs.tag, hs.invoiceId, hs.netAmount]; exact h.tag_eq

theorem newJob_wellFormed {jobId : TransferJobId} {event : CreditedInvoiceEvent}
    {net receivedAt : ℤ} (h : calculateNetAmount event.amount event.fee = .ok net) :
    WellFormedJob (newJob jobId event net receivedAt) := by
  obtain ⟨hamount, hfee, hnet, hpos⟩ := calculateNetAmount_ok h
  exact ⟨hamount, hfee, hnet, hpos, rfl, rfl⟩

section
variable (Delivered : EventRecord → Prop)

/-- The stored row came from a delivered record. -/
def CameFrom (e : WebhookEventRow) : Prop :=
  ∃ r, Delivered r ∧ e.payloadHash = r.payloadHash ∧ e.invoiceId = r.event.invoiceId

/-- What holds between transactions. -/
structure Corresponds (db : Database Row) : Prop where
  job_event : ∀ j ∈ db transferJobs, ∃ e ∈ db webhookEvents,
    e.id = j.eventId ∧ e.outcome = .queued ∧ e.invoiceId = some j.invoiceId
  queued_job : ∀ e ∈ db webhookEvents, e.outcome = .queued →
    ∃ j ∈ db transferJobs, j.eventId = e.id
  well_formed : ∀ j ∈ db transferJobs, WellFormedJob j
  came_from : ∀ e ∈ db webhookEvents, CameFrom Delivered e

/-- What holds while one credited event is being decided. -/
structure Pending (eventId : EventId) (invoiceId : InvoiceId) (db : Database Row) : Prop where
  job_event : ∀ j ∈ db transferJobs, ∃ e ∈ db webhookEvents,
    e.id = j.eventId ∧ e.outcome = .queued ∧ e.invoiceId = some j.invoiceId
  queued_job : ∀ e ∈ db webhookEvents, e.id ≠ eventId → e.outcome = .queued →
    ∃ j ∈ db transferJobs, j.eventId = e.id
  well_formed : ∀ j ∈ db transferJobs, WellFormedJob j
  came_from : ∀ e ∈ db webhookEvents, CameFrom Delivered e
  stored : ∃ e ∈ db webhookEvents, e.id = eventId
  names_invoice : ∀ e ∈ db webhookEvents, e.id = eventId → e.invoiceId = some invoiceId
  jobless : ∀ j ∈ db transferJobs, j.eventId ≠ eventId

end

variable {Delivered : EventRecord → Prop} {eventId : EventId} {invoiceId : InvoiceId}
variable {db db' : Database Row}

/-- The event rows with another outcome on one of them. -/
def withOutcome (eventId : EventId) (outcome : EventWriteResult)
    (events : List WebhookEventRow) : List WebhookEventRow :=
  assignWhere (fun e => e.id == eventId) (fun e => { e with outcome := outcome }) events

theorem mem_withOutcome {outcome : EventWriteResult} {events : List WebhookEventRow}
    {e : WebhookEventRow} (h : e ∈ withOutcome eventId outcome events) :
    ∃ a ∈ events, e.id = a.id ∧ e.payloadHash = a.payloadHash ∧ e.invoiceId = a.invoiceId ∧
      ((a.id = eventId ∧ e.outcome = outcome) ∨ (a.id ≠ eventId ∧ e = a)) := by
  rcases mem_assignWhere.mp h with ⟨a, ha, hid, rfl⟩ | ⟨he, hid⟩
  · exact ⟨a, ha, rfl, rfl, rfl, .inl ⟨by simpa using hid, rfl⟩⟩
  · exact ⟨e, he, rfl, rfl, rfl, .inr ⟨by simpa using hid, rfl⟩⟩

theorem withOutcome_mem (eventId : EventId) (outcome : EventWriteResult)
    {events : List WebhookEventRow} {a : WebhookEventRow} (h : a ∈ events) :
    ∃ e ∈ withOutcome eventId outcome events, e.id = a.id ∧ e.invoiceId = a.invoiceId ∧
      ((a.id = eventId ∧ e.outcome = outcome) ∨ (a.id ≠ eventId ∧ e = a)) := by
  by_cases hid : a.id = eventId
  · exact ⟨{ a with outcome := outcome },
      mem_assignWhere.mpr (.inl ⟨a, h, by simpa using hid, rfl⟩), rfl, rfl, .inl ⟨hid, rfl⟩⟩
  · exact ⟨a, mem_assignWhere.mpr (.inr ⟨h, by simpa using hid⟩), rfl, rfl, .inr ⟨hid, rfl⟩⟩

/-! ### From the pending state back to the invariant -/

/-- No job for the event: any outcome except queued settles it. -/
theorem Pending.rejected (h : Pending Delivered eventId invoiceId db)
    {outcome : EventWriteResult} (ho : outcome ≠ .queued)
    (hevents : db' webhookEvents = withOutcome eventId outcome (db webhookEvents))
    (hjobs : db' transferJobs = db transferJobs) : Corresponds Delivered db' where
  job_event := by
    intro j hj
    rw [hjobs] at hj
    obtain ⟨a, ha, hid, hq, hinv⟩ := h.job_event j hj
    obtain ⟨e, he, hid', hinv', hcase⟩ := withOutcome_mem eventId outcome ha
    rcases hcase with ⟨hsame, -⟩ | ⟨-, rfl⟩
    · exact absurd (hid.symm.trans hsame) (h.jobless j hj)
    · exact ⟨e, hevents ▸ he, hid, hq, hinv⟩
  queued_job := by
    intro e he hq
    rw [hevents] at he
    rw [hjobs]
    obtain ⟨a, ha, -, -, -, hcase⟩ := mem_withOutcome he
    rcases hcase with ⟨-, ho'⟩ | ⟨hne, rfl⟩
    · exact absurd (ho'.symm.trans hq) ho
    · exact h.queued_job e ha hne hq
  well_formed := by
    rw [hjobs]
    exact h.well_formed
  came_from := by
    intro e he
    rw [hevents] at he
    obtain ⟨a, ha, -, hhash, hinv, -⟩ := mem_withOutcome he
    obtain ⟨r, hr, hrh, hri⟩ := h.came_from a ha
    exact ⟨r, hr, hhash.trans hrh, hinv.trans hri⟩

/-- The new job of the event, and the event saying queued, settle it. -/
theorem Pending.queued (h : Pending Delivered eventId invoiceId db)
    {job : TransferJobRow} (hevent : job.eventId = eventId) (hinvoice : job.invoiceId = invoiceId)
    (hformed : WellFormedJob job)
    (hevents : db' webhookEvents = withOutcome eventId .queued (db webhookEvents))
    (hjobs : db' transferJobs = db transferJobs ++ [job]) : Corresponds Delivered db' where
  job_event := by
    intro j hj
    rw [hjobs] at hj
    rw [hevents]
    rcases List.mem_append.mp hj with hj | hj
    · obtain ⟨a, ha, hid, hq, hinv⟩ := h.job_event j hj
      obtain ⟨e, he, hid', hinv', hcase⟩ := withOutcome_mem eventId .queued ha
      rcases hcase with ⟨hsame, -⟩ | ⟨-, rfl⟩
      · exact absurd (hid.symm.trans hsame) (h.jobless j hj)
      · exact ⟨e, he, hid, hq, hinv⟩
    · rw [List.mem_singleton.mp hj]
      obtain ⟨a, ha, hid⟩ := h.stored
      obtain ⟨e, he, hid', hinv', hcase⟩ := withOutcome_mem eventId .queued ha
      rcases hcase with ⟨-, hq⟩ | ⟨hne, -⟩
      · refine ⟨e, he, by rw [hid', hid, hevent], hq, ?_⟩
        rw [hinv', h.names_invoice a ha hid, hinvoice]
      · exact absurd hid hne
  queued_job := by
    intro e he hq
    rw [hevents] at he
    rw [hjobs]
    obtain ⟨a, ha, hid, -, -, hcase⟩ := mem_withOutcome he
    rcases hcase with ⟨hsame, -⟩ | ⟨hne, rfl⟩
    · exact ⟨job, by simp, by rw [hevent, hid, hsame]⟩
    · obtain ⟨j, hj, hje⟩ := h.queued_job e ha hne hq
      exact ⟨j, List.mem_append.mpr (.inl hj), hje⟩
  well_formed := by
    intro j hj
    rw [hjobs] at hj
    rcases List.mem_append.mp hj with hj | hj
    · exact h.well_formed j hj
    · exact (List.mem_singleton.mp hj) ▸ hformed
  came_from := by
    intro e he
    rw [hevents] at he
    obtain ⟨a, ha, -, hhash, hinv, -⟩ := mem_withOutcome he
    obtain ⟨r, hr, hrh, hri⟩ := h.came_from a ha
    exact ⟨r, hr, hhash.trans hrh, hinv.trans hri⟩

/-- The invariant is about two tables only. -/
theorem Corresponds.of_eq (h : Corresponds Delivered db)
    (hevents : db' webhookEvents = db webhookEvents)
    (hjobs : db' transferJobs = db transferJobs) : Corresponds Delivered db' := by
  obtain ⟨h₁, h₂, h₃, h₄⟩ := h
  rw [← hevents, ← hjobs] at h₁ h₂
  rw [← hjobs] at h₃
  rw [← hevents] at h₄
  exact ⟨h₁, h₂, h₃, h₄⟩

theorem Pending.of_eq (h : Pending Delivered eventId invoiceId db)
    (hevents : db' webhookEvents = db webhookEvents)
    (hjobs : db' transferJobs = db transferJobs) :
    Pending Delivered eventId invoiceId db' := by
  obtain ⟨h₁, h₂, h₃, h₄, h₅, h₆, h₇⟩ := h
  rw [← hevents, ← hjobs] at h₁ h₂
  rw [← hjobs] at h₃ h₇
  rw [← hevents] at h₄ h₅ h₆
  exact ⟨h₁, h₂, h₃, h₄, h₅, h₆, h₇⟩

/-- Operations that only touch what a job may change keep the correspondence. -/
theorem Corresponds.of_sameTransfers (h : Corresponds Delivered db)
    (hevents : db' webhookEvents = db webhookEvents) (hjobs : SameTransfers db db') :
    Corresponds Delivered db' where
  job_event := by
    intro j' hj'
    obtain ⟨j, hj, hs⟩ := hjobs.no_new j' hj'
    rw [hevents, hs.eventId, hs.invoiceId]
    exact h.job_event j hj
  queued_job := by
    intro e he hq
    rw [hevents] at he
    obtain ⟨j, hj, hje⟩ := h.queued_job e he hq
    obtain ⟨j', hj', hs⟩ := hjobs.kept j hj
    exact ⟨j', hj', hs.eventId.trans hje⟩
  well_formed := by
    intro j' hj'
    obtain ⟨j, hj, hs⟩ := hjobs.no_new j' hj'
    exact (h.well_formed j hj).of_same hs
  came_from := by
    rw [hevents]
    exact h.came_from

/-! ### The branches of the recording -/

theorem markOutcome_establishes (eventId : EventId) (outcome : EventWriteResult)
    (db : Database Row) : Establishes (respond metadata) (markOutcome eventId outcome)
      (fun o db' => o = outcome ∧ db' transferJobs = db transferJobs ∧
        db' webhookEvents = withOutcome eventId outcome (db webhookEvents)) db := by
  refine establishes_updateRows fun _ => (establishes_done _).mpr ?_
  refine ⟨rfl, Database.set_of_ne _ (by decide) _, ?_⟩
  rw [Database.set_self]
  rfl

theorem markDuplicate_establishes (h : Pending Delivered eventId invoiceId db) :
    Establishes (respond metadata) (markDuplicate eventId)
      (fun o db' => o ≠ .queued ∧ Corresponds Delivered db') db := by
  refine (markOutcome_establishes eventId .duplicateInvoice db).mono ?_
  rintro o db' ⟨rfl, hjobs, hevents⟩
  exact ⟨by decide, h.rejected (by decide) hevents hjobs⟩

/-- Either the job is there and its event is as it was, or nothing is pending any more. -/
theorem queueTransfer_establishes {event : CreditedInvoiceEvent} {jobId : TransferJobId}
    {net receivedAt : ℤ} (h : Pending Delivered event.eventId event.invoiceId db) :
    Establishes (respond metadata) (queueTransfer jobId event net receivedAt)
      (fun o db' => (o = .queued ∧ db' webhookEvents = db webhookEvents ∧
          db' transferJobs = db transferJobs ++ [newJob jobId event net receivedAt]) ∨
        (o ≠ .queued ∧ Corresponds Delivered db')) db := by
  have hmark : Establishes (respond metadata) (markDuplicate event.eventId)
      (fun o db' => (o = .queued ∧ db' webhookEvents = db webhookEvents ∧
          db' transferJobs = db transferJobs ++ [newJob jobId event net receivedAt]) ∨
        (o ≠ .queued ∧ Corresponds Delivered db')) db :=
    (markDuplicate_establishes h).mono fun _ _ ho => .inr ho
  unfold queueTransfer
  simp only [select_bind, establishes_call, respond_select]
  split
  · exact hmark
  · simp only [insert_bind]
    refine establishes_insert (fun db' _ hdb' => (establishes_done _).mpr ?_) fun _ => hmark
    refine .inl ⟨rfl, ?_, ?_⟩
    · rw [hdb']
      exact Database.set_of_ne _ (by decide) _
    · rw [hdb', Database.set_self]

/-- The ownership check does not touch events and jobs. -/
theorem ownsInvoice_establishes (event : CreditedInvoiceEvent) (receivedAt : ℤ)
    (db : Database Row) : Establishes (respond metadata) (ownsInvoice event receivedAt)
      (fun _ db' => db' webhookEvents = db webhookEvents ∧
        db' transferJobs = db transferJobs) db :=
  ((ownsInvoice_writes event receivedAt).establishes db).mono fun _ _ h =>
    ⟨h webhookEvents (by decide), h transferJobs (by decide)⟩

/-- The event row that a first delivery stores leaves a credited event pending. -/
theorem Corresponds.inserted (h : Corresponds Delivered db) {record : EventRecord}
    (hrecord : Delivered record) {event : CreditedInvoiceEvent}
    (hevent : record.event = .credited event) {outcome : EventWriteResult}
    (hnew : ∀ e ∈ db webhookEvents, e.id ≠ record.event.eventId) :
    Pending Delivered event.eventId event.invoiceId
      (db.set webhookEvents (db webhookEvents ++ [eventRow record outcome])) := by
  have hid : record.event.eventId = event.eventId := by rw [hevent]; rfl
  have hjobs : (db.set webhookEvents (db webhookEvents ++ [eventRow record outcome]))
      transferJobs = db transferJobs := Database.set_of_ne _ (by decide) _
  refine ⟨?_, ?_, ?_, ?_, ?_, ?_, ?_⟩
  · intro j hj
    rw [hjobs] at hj
    obtain ⟨e, he, hrest⟩ := h.job_event j hj
    exact ⟨e, Database.mem_set_append.mpr (.inl he), hrest⟩
  · intro e he hne hq
    rw [hjobs]
    rcases Database.mem_set_append.mp he with he | rfl
    · exact h.queued_job e he hq
    · exact absurd hid hne
  · rw [hjobs]
    exact h.well_formed
  · intro e he
    rcases Database.mem_set_append.mp he with he | rfl
    · exact h.came_from e he
    · exact ⟨record, hrecord, rfl, rfl⟩
  · exact ⟨eventRow record outcome, Database.mem_set_append.mpr (.inr rfl), hid⟩
  · intro e he hsame
    rcases Database.mem_set_append.mp he with he | rfl
    · exact absurd (hsame.trans hid.symm) (hnew e he)
    · simp [eventRow, hevent, VerifiedEvent.invoiceId]
  · intro j hj hsame
    rw [hjobs] at hj
    obtain ⟨e, he, heid, -⟩ := h.job_event j hj
    exact hnew e he (heid.trans (hsame.trans hid.symm))

/-- A stored event of an unknown invoice is pending as it stands. -/
theorem Corresponds.pending_stored (h : Corresponds Delivered db)
    (hc : metadata.Consistent db) {row : WebhookEventRow} (hrow : row ∈ db webhookEvents)
    (hunknown : row.outcome ≠ .queued) (hinvoice : row.invoiceId = some invoiceId) :
    Pending Delivered row.id invoiceId db where
  job_event := h.job_event
  queued_job := fun e he _ => h.queued_job e he
  well_formed := h.well_formed
  came_from := h.came_from
  stored := ⟨row, hrow, rfl⟩
  names_invoice := by
    intro e he hid
    rw [(hc webhookEvents).eq_of_key he hrow hid]
    exact hinvoice
  jobless := by
    intro j hj hid
    obtain ⟨e, he, heid, hq, -⟩ := h.job_event j hj
    rw [(hc webhookEvents).eq_of_key he hrow (heid.trans hid)] at hq
    exact hunknown hq

/-- An event that queues nothing is stored without a job. -/
theorem Corresponds.inserted_other (h : Corresponds Delivered db) {record : EventRecord}
    (hrecord : Delivered record) {outcome : EventWriteResult} (ho : outcome ≠ .queued) :
    Corresponds Delivered
      (db.set webhookEvents (db webhookEvents ++ [eventRow record outcome])) := by
  have hjobs : (db.set webhookEvents (db webhookEvents ++ [eventRow record outcome]))
      transferJobs = db transferJobs := Database.set_of_ne _ (by decide) _
  refine ⟨?_, ?_, ?_, ?_⟩
  · intro j hj
    rw [hjobs] at hj
    obtain ⟨e, he, hrest⟩ := h.job_event j hj
    exact ⟨e, Database.mem_set_append.mpr (.inl he), hrest⟩
  · intro e he hq
    rw [hjobs]
    rcases Database.mem_set_append.mp he with he | rfl
    · exact h.queued_job e he hq
    · exact absurd hq ho
  · rw [hjobs]
    exact h.well_formed
  · intro e he
    rcases Database.mem_set_append.mp he with he | rfl
    · exact h.came_from e he
    · exact ⟨record, hrecord, rfl, rfl⟩

theorem lifecycleOutcome_ne_queued (job : Option TransferJobRow)
    (event : TransferLifecycleEvent) : lifecycleOutcome job event ≠ .queued := by
  unfold lifecycleOutcome
  split
  · decide
  · split
    · decide
    · split_ifs <;> decide

theorem updateMatched_establishes (h : Corresponds Delivered db) {record : EventRecord}
    (event : TransferLifecycleEvent) (outcome : EventWriteResult) :
    Establishes (respond metadata) (updateMatched record event outcome)
      (fun _ db' => Corresponds Delivered db') db := by
  unfold updateMatched
  split_ifs
  · refine establishes_updateRows fun _ => (establishes_done _).mpr ?_
    refine h.of_sameTransfers (Database.set_of_ne _ (by decide) _) (.assign fun j => ?_)
    exact ⟨rfl, rfl, rfl, rfl, rfl, rfl, rfl, rfl⟩
  · exact (establishes_done _).mpr h

theorem recordTransferEvent_establishes (h : Corresponds Delivered db) {record : EventRecord}
    (hrecord : Delivered record) (event : TransferLifecycleEvent) :
    Establishes (respond metadata) (recordTransferEvent record event)
      (fun _ db' => Corresponds Delivered db') db := by
  unfold recordTransferEvent
  simp only [select_bind, establishes_call, respond_select]
  refine insertEvent_establishes (fun _ db' hdb' => ?_) ((establishes_done _).mpr h)
  subst hdb'
  exact updateMatched_establishes
    (h.inserted_other hrecord (lifecycleOutcome_ne_queued _ event)) event _

/-- The queued branch of a first delivery, or a rejected one. -/
theorem decideInserted_establishes {event : CreditedInvoiceEvent} {jobId : TransferJobId}
    {net receivedAt : ℤ} (h : Pending Delivered event.eventId event.invoiceId db)
    (hqueued : ∀ e ∈ db webhookEvents, e.id = event.eventId → e.outcome = .queued)
    (hnet : calculateNetAmount event.amount event.fee = .ok net) :
    Establishes (respond metadata) (do
      match ← ownsInvoice event receivedAt with
      | false => markInvoiceUnknown event.eventId
      | true => queueTransfer jobId event net receivedAt)
      (fun _ db' => Corresponds Delivered db') db := by
  refine .bind ((ownsInvoice_establishes event receivedAt db).mono ?_)
  rintro owned db₁ ⟨hevents, hjobs⟩
  have h₁ := h.of_eq hevents hjobs
  cases owned with
  | false =>
      refine (markOutcome_establishes event.eventId .invoiceUnknown db₁).mono ?_
      rintro o db' ⟨-, hjobs', hevents'⟩
      exact h₁.rejected (by decide) hevents' hjobs'
  | true =>
      refine (queueTransfer_establishes h₁).mono ?_
      rintro o db' (⟨-, hevents', hjobs'⟩ | ⟨-, hdone⟩)
      · refine h₁.queued rfl rfl (newJob_wellFormed hnet) ?_ hjobs'
        have hsame : withOutcome event.eventId .queued (db₁ webhookEvents) =
            db₁ webhookEvents := by
          unfold withOutcome assignWhere
          conv_rhs => rw [← List.map_id (db₁ webhookEvents)]
          refine List.map_congr_left fun e he => ?_
          split_ifs with hid
          · rw [← hqueued e (hevents ▸ he) (by simpa using hid)]
            rfl
          · rfl
        rw [hevents', hsame]
      · exact hdone

/-- A redelivery of a pending event queues its job or changes nothing that matters. -/
theorem promoteStored_establishes {record : EventRecord} {event : CreditedInvoiceEvent}
    {jobId : TransferJobId} {net : ℤ} (hc : Corresponds Delivered db)
    (h : Pending Delivered event.eventId event.invoiceId db)
    (hnet : calculateNetAmount event.amount event.fee = .ok net) :
    Establishes (respond metadata) (promoteStored jobId record event net)
      (fun _ db' => Corresponds Delivered db') db := by
  refine .bind ((ownsInvoice_establishes event record.receivedAt db).mono ?_)
  rintro owned db₁ ⟨hevents, hjobs⟩
  have h₁ := h.of_eq hevents hjobs
  cases owned with
  | false => exact (establishes_done _).mpr (hc.of_eq hevents hjobs)
  | true =>
      refine .bind ((queueTransfer_establishes h₁).mono ?_)
      rintro o db₂ (⟨rfl, hevents', hjobs'⟩ | ⟨ho, hdone⟩)
      · refine (markOutcome_establishes event.eventId .queued db₂).mono ?_
        rintro o db' ⟨-, hjobs'', hevents''⟩
        exact h₁.queued rfl rfl (newJob_wellFormed hnet) (hevents' ▸ hevents'')
          (hjobs''.trans hjobs')
      · split
        · exact absurd rfl ho
        · exact (establishes_done _).mpr hdone

theorem recordIgnoredWorkspace_establishes (h : Corresponds Delivered db)
    {record : EventRecord} (hrecord : Delivered record) :
    Establishes (respond metadata) (recordIgnoredWorkspace record)
      (fun _ db' => Corresponds Delivered db') db := by
  refine insertEvent_establishes (fun _ db' hdb' => ?_) ((establishes_done _).mpr h)
  subst hdb'
  exact (establishes_done _).mpr (h.inserted_other hrecord (by decide))

section
variable (hhash : ∀ r r', Delivered r → Delivered r' →
  r.payloadHash = r'.payloadHash → r.event = r'.event)
variable (hnet : ∀ r event net, Delivered r → r.event = .credited event →
  r.netAmount = some net → calculateNetAmount event.amount event.fee = .ok net)
include hhash hnet

theorem recoverDuplicate_establishes (h : Corresponds Delivered db)
    (hc : metadata.Consistent db) {record : EventRecord} (hrecord : Delivered record)
    (jobId : TransferJobId) : Establishes (respond metadata) (recoverDuplicate jobId record)
      (fun _ db' => Corresponds Delivered db') db := by
  unfold recoverDuplicate
  split
  · next event net hevent hsome =>
      simp only [select_bind, establishes_call, respond_select]
      split
      · exact (establishes_done _).mpr h
      · next row rest hstored =>
          have hrow : row ∈ (db webhookEvents).filter fun e => e.id == event.eventId := by
            rw [hstored]
            exact List.mem_cons_self
          rw [List.mem_filter, beq_iff_eq] at hrow
          obtain ⟨hmem, hid⟩ := hrow
          split_ifs with hbad
          · exact (establishes_done _).mpr h
          · simp only [Bool.or_eq_true, bne_iff_ne, not_or, not_not] at hbad
            obtain ⟨r, hr, hrh, hri⟩ := h.came_from row hmem
            have hsame : r.event = record.event := hhash r record hr hrecord
              (hrh.symm.trans hbad.1)
            have hinvoice : row.invoiceId = some event.invoiceId := by
              rw [hri, hsame, hevent]
              rfl
            have hpending := h.pending_stored hc hmem (by rw [hbad.2]; decide) hinvoice
            rw [hid] at hpending
            exact promoteStored_establishes h hpending
              (hnet record event net hrecord hevent hsome)
  · exact (establishes_done _).mpr h

theorem record_establishes (h : Corresponds Delivered db) (hc : metadata.Consistent db)
    {record : EventRecord} (hrecord : Delivered record) (jobId : TransferJobId) :
    Establishes (respond metadata) (EventRecording.record jobId record)
      (fun _ db' => Corresponds Delivered db') db := by
  unfold EventRecording.record
  split
  · exact recordTransferEvent_establishes h hrecord _
  · next hlifecycle =>
      refine insertEvent_establishes (fun hnew db' hdb' => ?_)
        (recoverDuplicate_establishes hhash hnet h hc hrecord jobId)
      subst hdb'
      simp only
      split
      · next event net hevent hsome =>
          refine decideInserted_establishes (h.inserted hrecord hevent hnew) ?_
            (hnet record event net hrecord hevent hsome)
          intro e he hid
          rcases Database.mem_set_append.mp he with he | rfl
          · exact absurd (hid.trans (by rw [hevent]; rfl)) (hnew e he)
          · simp [eventRow, initialOutcome, hevent, hsome]
      · next hother =>
          refine (establishes_done _).mpr (h.inserted_other hrecord ?_)
          unfold initialOutcome
          split
          · decide
          · next hignored =>
              split_ifs with hnone
              · decide
              · obtain ⟨net, hsome⟩ := Option.ne_none_iff_exists'.mp hnone
                cases hevent : record.event with
                | credited event => exact absurd hsome (hother event net hevent)
                | ignored event => exact absurd hevent (hignored event)
                | lifecycle event => exact absurd hevent (hlifecycle event)

end

/-! ### Sequences of transactions -/

/-- The record that an operation delivers. -/
def delivery : StoreOp → Option EventRecord
  | .events (.record _ r) => some r
  | .events (.recordIgnoredWorkspace r) => some r
  | _ => none

/-- Deliveries are built by `WebhookService.receive`; other operations are arbitrary. -/
def FromWebhook : StoreOp → Prop
  | .events (.record _ r) =>
      ∃ event payloadHash receivedAt, r = receivedRecord event payloadHash receivedAt
  | .events (.recordIgnoredWorkspace r) =>
      ∃ event payloadHash receivedAt, r = foreignRecord event payloadHash receivedAt
  | _ => True

theorem receivedRecord_net {event : VerifiedEvent} {payloadHash : String} {receivedAt : ℤ}
    {credited : CreditedInvoiceEvent} {net : ℤ} (hevent : event = .credited credited)
    (h : (receivedRecord event payloadHash receivedAt).netAmount = some net) :
    calculateNetAmount credited.amount credited.fee = .ok net := by
  subst hevent
  cases hcalc : calculateNetAmount credited.amount credited.fee with
  | error e => simp [receivedRecord, hcalc, Except.toOption] at h
  | ok n => simpa [receivedRecord, hcalc, Except.toOption] using h

theorem FromWebhook.net {op : StoreOp} (h : FromWebhook op) {r : EventRecord}
    (hr : delivery op = some r) {event : CreditedInvoiceEvent} {net : ℤ}
    (hevent : r.event = .credited event) (hnet : r.netAmount = some net) :
    calculateNetAmount event.amount event.fee = .ok net := by
  cases op with
  | events op =>
      cases op with
      | record jobId record =>
          obtain ⟨e, hash, receivedAt, rfl⟩ := h
          obtain rfl := Option.some.inj hr
          exact receivedRecord_net hevent hnet
      | recordIgnoredWorkspace record =>
          obtain ⟨e, hash, receivedAt, rfl⟩ := h
          obtain rfl := Option.some.inj hr
          simp [foreignRecord] at hnet
  | _ => simp [delivery] at hr

theorem apply_corresponds {op : StoreOp}
    (hhash : ∀ r r', Delivered r → Delivered r' → r.payloadHash = r'.payloadHash →
      r.event = r'.event)
    (hnet : ∀ r event net, Delivered r → r.event = .credited event →
      r.netAmount = some net → calculateNetAmount event.amount event.fee = .ok net)
    (hdelivered : ∀ r, delivery op = some r → Delivered r) (hc : metadata.Consistent db)
    (h : Corresponds Delivered db) : Corresponds Delivered (op.apply db).2 := by
  cases op with
  | events op =>
      cases op with
      | record jobId record =>
          exact (record_establishes hhash hnet h hc (hdelivered record rfl) jobId).atomically h
      | recordIgnoredWorkspace record =>
          exact (recordIgnoredWorkspace_establishes h (hdelivered record rfl)).atomically h
  | invoices op =>
      refine h.of_sameTransfers (StoreOp.apply_frame _ ?_ db)
        (StoreOp.apply_sameTransfers (by simp) db)
      cases op <;> simp [StoreOp.tables, InvoiceStoreOp.tables]
  | trials op =>
      refine h.of_sameTransfers (StoreOp.apply_frame _ ?_ db)
        (StoreOp.apply_sameTransfers (by simp) db)
      cases op <;> simp [StoreOp.tables, TrialStoreOp.tables]
  | transfers op =>
      refine h.of_sameTransfers (StoreOp.apply_frame _ ?_ db)
        (StoreOp.apply_sameTransfers (by simp) db)
      cases op <;> simp [StoreOp.tables, TransferStoreOp.tables]

/-- Exactly one event for a job, exactly one job for a queued event, no job twice. -/
structure JobsMatchEvents (db : Database Row) : Prop where
  event_of_job : ∀ j ∈ db transferJobs, ∃ e : WebhookEventRow,
    (db webhookEvents).filter (fun e => e.id == j.eventId) = [e] ∧
      e.outcome = .queued ∧ e.invoiceId = some j.invoiceId
  job_of_event : ∀ e ∈ db webhookEvents, e.outcome = .queued → ∃ j : TransferJobRow,
    (db transferJobs).filter (fun j => j.eventId == e.id) = [j]
  distinct : (db transferJobs).Pairwise fun j j' : TransferJobRow =>
    j.invoiceId ≠ j'.invoiceId ∧ j.externalId ≠ j'.externalId ∧ j.tag ≠ j'.tag
  well_formed : ∀ j ∈ db transferJobs, WellFormedJob j

theorem Corresponds.jobsMatchEvents (h : Corresponds Delivered db)
    (hc : metadata.Consistent db) : JobsMatchEvents db where
  event_of_job := by
    intro j hj
    obtain ⟨e, he, hid, hq, hinv⟩ := h.job_event j hj
    refine ⟨e, (hc webhookEvents).filter_eq_singleton ?_ he (by simpa using hid), hq, hinv⟩
    intro a b ha hb
    exact metadata.clash_of_key webhookEvents a b
      ((beq_iff_eq.mp ha).trans (beq_iff_eq.mp hb).symm)
  job_of_event := by
    intro e he hq
    obtain ⟨j, hj, hje⟩ := h.queued_job e he hq
    refine ⟨j, (hc transferJobs).filter_eq_singleton ?_ hj (by simpa using hje)⟩
    intro a b ha hb
    have hab : a.eventId = b.eventId := (beq_iff_eq.mp ha).trans (beq_iff_eq.mp hb).symm
    simp [metadata, uniqueConflict, hab]
  distinct := by
    refine (hc transferJobs).2.imp fun {j j'} hjj' => ?_
    simp only [metadata, uniqueConflict, Bool.or_eq_false_iff, beq_eq_false_iff_ne] at hjj'
    exact ⟨hjj'.1.1.1.2, hjj'.1.1.2, hjj'.1.2⟩
  well_formed := h.well_formed

/-- In every state that deliveries and store transactions reach from the empty
database, jobs and queued events match. -/
theorem jobs_match_events {ops : List StoreOp} (hweb : ∀ op ∈ ops, FromWebhook op)
    (hhash : ∀ r ∈ ops.filterMap delivery, ∀ r' ∈ ops.filterMap delivery,
      r.payloadHash = r'.payloadHash → r.event = r'.event) :
    JobsMatchEvents (applyAll ops emptyDatabase) := by
  have hnet : ∀ r event net, r ∈ ops.filterMap delivery → r.event = .credited event →
      r.netAmount = some net → calculateNetAmount event.amount event.fee = .ok net := by
    intro r event net hr hevent hsome
    obtain ⟨op, hop, hdel⟩ := List.mem_filterMap.mp hr
    exact (hweb op hop).net hdel hevent hsome
  have hstart : metadata.Consistent emptyDatabase ∧
      Corresponds (fun r => r ∈ ops.filterMap delivery) emptyDatabase :=
    ⟨emptyDatabase_consistent, by simp [emptyDatabase], by simp [emptyDatabase],
      by simp [emptyDatabase], by simp [emptyDatabase]⟩
  have hend := applyAll_invariant (fun db => metadata.Consistent db ∧
      Corresponds (fun r => r ∈ ops.filterMap delivery) db)
    (fun op hop db hdb => ⟨StoreOp.apply_consistent hdb.1 op,
      apply_corresponds (fun r r' hr hr' => hhash r hr r' hr') hnet
        (fun r hr => List.mem_filterMap.mpr ⟨op, hop, hr⟩) hdb.1 hdb.2⟩) hstart
  exact hend.2.jobsMatchEvents hend.1

/-- A smoke invoice whose credit is delivered twice. -/
def smokeCredit : List StoreOp :=
  let draft : InvoiceDraft :=
    { id := "d", batchId := "sandbox-smoke", ordinal := 0, payerName := "p", payerTaxId := "t"
      amount := 5000, tag := "trial-smoke:d", status := .pending, attempts := 0, createdAt := 0 }
  let event : CreditedInvoiceEvent :=
    { eventId := "e", invoiceId := "i", amount := 5000, fee := 50, workspaceId := "w"
      tags := ["trial-smoke:d"] }
  [.invoices (.registerSmoke draft 0),
    .events (.record "j" (receivedRecord (.credited event) "h" 1)),
    .events (.record "k" (receivedRecord (.credited event) "h" 2))]

theorem jobs_match_events_smokeCredit :
    JobsMatchEvents (applyAll smokeCredit emptyDatabase) ∧
      (applyAll smokeCredit emptyDatabase transferJobs).length = 1 := by
  refine ⟨jobs_match_events ?_ ?_, by decide⟩
  · intro op hop
    simp only [smokeCredit, List.mem_cons, List.not_mem_nil, or_false] at hop
    rcases hop with rfl | rfl | rfl
    · trivial
    · exact ⟨_, _, _, rfl⟩
    · exact ⟨_, _, _, rfl⟩
  · decide

end StarkbankTrial.EventJobCorrespondence
