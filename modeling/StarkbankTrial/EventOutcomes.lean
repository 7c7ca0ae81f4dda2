import StarkbankTrial.RedeliveredEvents

/-!
# What a recording answers

The answer of a recording together with what it does to the events and jobs: the event is
new, or it was stored and is promoted, or nothing happens. From it follow what the answer
promises about the jobs, and that a stored event never changes but for an outcome that said
that the invoice was unknown.
-/
namespace StarkbankTrial.EventOutcomes
open Domain InteractivePrograms RelationalTables Transaction DatabaseSchema
open DatabaseSchema.Table
open EventRecording StoreOperations EventJobCorrespondence RedeliveredEvents
open Program hiding atomically

/-- The new job is not accepted beside these jobs. -/
def Refused (job : TransferJobRow) (jobs : List TransferJobRow) : Prop :=
  metadata.check transferJobs job = false ∨
    ∃ j ∈ jobs, metadata.clash transferJobs j job = true

/-- What the answer says about the jobs. -/
inductive JobsDecided (jobId : TransferJobId) (r : EventRecord) (jobs : List TransferJobRow) :
    EventWriteResult → List TransferJobRow → Prop
  | queued {event : CreditedInvoiceEvent} {net : ℤ} : r.event = .credited event →
      r.netAmount = some net →
      JobsDecided jobId r jobs .queued (jobs ++ [newJob jobId event net r.receivedAt])
  | refused {event : CreditedInvoiceEvent} {net : ℤ} : r.event = .credited event →
      r.netAmount = some net → Refused (newJob jobId event net r.receivedAt) jobs →
      JobsDecided jobId r jobs .duplicateInvoice jobs
  | untouched {o : EventWriteResult} : o ≠ .queued → o ≠ .duplicateInvoice →
      o ≠ .ignoredWorkspace → JobsDecided jobId r jobs o jobs
  | updated {event : TransferLifecycleEvent} : r.event = .lifecycle event →
      JobsDecided jobId r jobs .transferUpdated
        (assignWhere (fun j => j.externalId == event.externalId) (applyLifecycle r event) jobs)

/-- What a recording answers and does to events and jobs. -/
inductive Decided (jobId : TransferJobId) (r : EventRecord) (db : Database Row) :
    EventWriteResult → Database Row → Prop
  | duplicate {db' : Database Row} : (∃ e ∈ db webhookEvents, e.id = r.event.eventId) →
      db' webhookEvents = db webhookEvents → db' transferJobs = db transferJobs →
      Decided jobId r db .duplicateEvent db'
  | stored {o : EventWriteResult} {db' : Database Row} :
      (∀ e ∈ db webhookEvents, e.id ≠ r.event.eventId) →
      db' webhookEvents = db webhookEvents ++ [eventRow r o] →
      JobsDecided jobId r (db transferJobs) o (db' transferJobs) → Decided jobId r db o db'
  | promoted {o : EventWriteResult} {e : WebhookEventRow} {db' : Database Row} :
      e ∈ db webhookEvents → e.id = r.event.eventId → e.outcome = .invoiceUnknown →
      o = .queued ∨ o = .duplicateInvoice →
      db' webhookEvents = withOutcome r.event.eventId o (db webhookEvents) →
      JobsDecided jobId r (db transferJobs) o (db' transferJobs) → Decided jobId r db o db'

variable {db : Database Row}

/-- A job is queued, or it is refused and the event says so. -/
theorem queueTransfer_decides (jobId : TransferJobId) {event : CreditedInvoiceEvent}
    (net receivedAt : ℤ) (hstored : ∃ e ∈ db webhookEvents, e.id = event.eventId) :
    Establishes (respond metadata) (queueTransfer jobId event net receivedAt) (fun o db' =>
      (o = .queued ∧ db' webhookEvents = db webhookEvents ∧
        db' transferJobs = db transferJobs ++ [newJob jobId event net receivedAt]) ∨
      (o = .duplicateInvoice ∧
        db' webhookEvents = withOutcome event.eventId .duplicateInvoice (db webhookEvents) ∧
        db' transferJobs = db transferJobs ∧
        Refused (newJob jobId event net receivedAt) (db transferJobs))) db := by
  have hmark : Refused (newJob jobId event net receivedAt) (db transferJobs) →
      Establishes (respond metadata) (markDuplicate event.eventId) (fun o db' =>
        (o = .queued ∧ db' webhookEvents = db webhookEvents ∧
          db' transferJobs = db transferJobs ++ [newJob jobId event net receivedAt]) ∨
        (o = .duplicateInvoice ∧
          db' webhookEvents = withOutcome event.eventId .duplicateInvoice (db webhookEvents) ∧
          db' transferJobs = db transferJobs ∧
          Refused (newJob jobId event net receivedAt) (db transferJobs))) db :=
    fun hrefused => (markOutcome_establishes event.eventId .duplicateInvoice db).mono
      fun _ _ h => .inr ⟨h.1, h.2.2, h.2.1, hrefused⟩
  unfold queueTransfer
  simp only [select_bind, establishes_call, respond_select]
  split
  · next job rest hjobs =>
      refine hmark (.inr ⟨job, ?_⟩)
      have hmem : job ∈ (db transferJobs).filter
          (fun j : TransferJobRow => j.invoiceId == event.invoiceId) := by simp [hjobs]
      obtain ⟨hjob, hinvoice⟩ := List.mem_filter.mp hmem
      exact ⟨hjob, by simp [metadata, uniqueConflict, newJob, beq_iff_eq.mp hinvoice]⟩
  · simp only [insert_bind]
    refine establishes_insert (fun db' _ hdb' => (establishes_done _).mpr (.inl ⟨rfl, ?_, ?_⟩))
      fun hnone => hmark ?_
    · rw [hdb', Database.set_of_ne _ (by decide)]
    · rw [hdb', Database.set_self]
    · by_contra hfree
      obtain ⟨hcheck, hclash⟩ := not_or.mp hfree
      obtain ⟨e, he, hid⟩ := hstored
      have haccepts : metadata.accepts db transferJobs (newJob jobId event net receivedAt) = true := by
        refine Schema.accepts_iff.mpr ⟨by simpa using hcheck, fun j hj => ?_, fun ref href => ?_⟩
        · exact Bool.eq_false_iff.mpr fun htrue => hclash ⟨j, hj, htrue⟩
        · obtain rfl := List.mem_singleton.mp href
          exact ⟨e, he, hid⟩
      rw [Schema.insertRows_singleton, if_pos haccepts] at hnone
      cases hnone

/-- The decision about a credited event whose row has just been stored. -/
theorem decideCredited_decides (jobId : TransferJobId) {r : EventRecord}
    {event : CreditedInvoiceEvent} {net : ℤ} (hevent : r.event = .credited event)
    (hnet : r.netAmount = some net) (hnew : ∀ e ∈ db webhookEvents, e.id ≠ r.event.eventId)
    {db₁ : Database Row}
    (h₁ : db₁ = db.set webhookEvents (db webhookEvents ++ [eventRow r (initialOutcome r)])) :
    Establishes (respond metadata) (decideCredited jobId event net r.receivedAt)
      (Decided jobId r db) db₁ := by
  have hid : event.eventId = r.event.eventId := by rw [hevent]; rfl
  have hinitial : initialOutcome r = .queued := by simp [initialOutcome, hevent, hnet]
  have hevents : db₁ webhookEvents = db webhookEvents ++ [eventRow r (initialOutcome r)] := by
    rw [h₁, Database.set_self]
  have hjobs : db₁ transferJobs = db transferJobs := by
    rw [h₁, Database.set_of_ne _ (by decide)]
  refine .bind ((ownsInvoice_establishes event r.receivedAt db₁).mono ?_)
  rintro (_ | _) db₂ ⟨h₂, h₂'⟩
  · refine (markOutcome_establishes event.eventId .invoiceUnknown db₂).mono ?_
    rintro o db₃ ⟨rfl, h₃', h₃⟩
    refine .stored hnew ?_ ?_
    · rw [h₃, h₂, hevents, hid]
      exact withOutcome_append hnew rfl _
    · rw [h₃', h₂', hjobs]
      exact .untouched (by decide) (by decide) (by decide)
  · have hstored : ∃ e ∈ db₂ webhookEvents, e.id = event.eventId := by
      rw [h₂, hevents]
      exact ⟨eventRow r (initialOutcome r), by simp, hid.symm⟩
    refine (queueTransfer_decides jobId net r.receivedAt hstored).mono ?_
    rintro o db₃ (⟨rfl, h₃, h₃'⟩ | ⟨rfl, h₃, h₃', hrefused⟩)
    · refine .stored hnew ?_ ?_
      · rw [h₃, h₂, hevents, hinitial]
      · rw [h₃', h₂', hjobs]
        exact .queued hevent hnet
    · refine .stored hnew ?_ ?_
      · rw [h₃, h₂, hevents, hid]
        exact withOutcome_append hnew rfl _
      · rw [h₃', h₂', hjobs]
        rw [h₂', hjobs] at hrefused
        exact .refused hevent hnet hrefused

theorem promoteStored_decides (jobId : TransferJobId) {r : EventRecord}
    {event : CreditedInvoiceEvent} {net : ℤ} (hevent : r.event = .credited event)
    (hnet : r.netAmount = some net) {e : WebhookEventRow} (he : e ∈ db webhookEvents)
    (hid : e.id = r.event.eventId) (hunknown : e.outcome = .invoiceUnknown) :
    Establishes (respond metadata) (promoteStored jobId r event net) (Decided jobId r db) db := by
  have hid' : event.eventId = r.event.eventId := by rw [hevent]; rfl
  unfold promoteStored
  refine .bind ((ownsInvoice_establishes event r.receivedAt db).mono ?_)
  rintro (_ | _) db₁ ⟨h₁, h₁'⟩
  · exact (establishes_done _).mpr (.duplicate ⟨e, he, hid⟩ h₁ h₁')
  · have hstored : ∃ e ∈ db₁ webhookEvents, e.id = event.eventId :=
      ⟨e, h₁ ▸ he, hid.trans hid'.symm⟩
    refine .bind ((queueTransfer_decides jobId net r.receivedAt hstored).mono ?_)
    rintro o db₂ (⟨rfl, h₂, h₂'⟩ | ⟨rfl, h₂, h₂', hrefused⟩)
    · refine (markOutcome_establishes event.eventId .queued db₂).mono ?_
      rintro o db₃ ⟨rfl, h₃', h₃⟩
      refine .promoted he hid hunknown (.inl rfl) ?_ ?_
      · rw [h₃, h₂, h₁, hid']
      · rw [h₃', h₂', h₁']
        exact .queued hevent hnet
    · refine (establishes_done _).mpr (.promoted he hid hunknown (.inr rfl) ?_ ?_)
      · rw [h₂, h₁, hid']
      · rw [h₂', h₁']
        rw [h₁'] at hrefused
        exact .refused hevent hnet hrefused

theorem recoverDuplicate_decides (jobId : TransferJobId) (r : EventRecord)
    (hstored : ∃ e ∈ db webhookEvents, e.id = r.event.eventId) :
    Establishes (respond metadata) (recoverDuplicate jobId r) (Decided jobId r db) db := by
  have hsame : Decided jobId r db .duplicateEvent db := .duplicate hstored rfl rfl
  unfold recoverDuplicate
  split
  · next event net hevent hnet =>
      simp only [select_bind, establishes_call, respond_select]
      split
      · exact (establishes_done _).mpr hsame
      · next row rest hrows =>
          refine establishes_ite _ (fun _ => (establishes_done _).mpr hsame) fun hnot => ?_
          have hmem : row ∈ (db webhookEvents).filter
              (fun e : WebhookEventRow => e.id == event.eventId) := by simp [hrows]
          obtain ⟨hrow, hid⟩ := List.mem_filter.mp hmem
          have hunknown : row.outcome = .invoiceUnknown := by simp_all
          exact promoteStored_decides jobId hevent hnet hrow
            ((beq_iff_eq.mp hid).trans (by rw [hevent]; rfl)) hunknown
  · exact (establishes_done _).mpr hsame

/-- The event row is new, or one with its id is stored. -/
theorem insertEvent_decides {A : Type} {r : EventRecord} {outcome : EventWriteResult}
    {f : Bool → Txn A} {post : A → Database Row → Prop}
    (hnew : (∀ e ∈ db webhookEvents, e.id ≠ r.event.eventId) →
      ∀ db', db' = db.set webhookEvents (db webhookEvents ++ [eventRow r outcome]) →
        Establishes (respond metadata) (f true) post db')
    (hold : (∃ e ∈ db webhookEvents, e.id = r.event.eventId) →
      Establishes (respond metadata) (f false) post db) :
    Establishes (respond metadata) (insertEvent r outcome >>= f) post db := by
  by_cases hstored : ∃ e ∈ db webhookEvents, e.id = r.event.eventId
  · exact insertEvent_establishes hnew (hold hstored)
  · have hfree : ∀ e ∈ db webhookEvents, e.id ≠ r.event.eventId :=
      fun e he hid => hstored ⟨e, he, hid⟩
    simp only [insertEvent, insert_bind]
    refine establishes_insert (fun db' _ hdb' => hnew hfree db' hdb') fun hnone => ?_
    rw [Schema.insertRows_singleton, if_pos (eventRow_accepted hfree outcome)] at hnone
    cases hnone

theorem lifecycleOutcome_own (job : Option TransferJobRow) (event : TransferLifecycleEvent) :
    lifecycleOutcome job event ≠ .queued ∧ lifecycleOutcome job event ≠ .duplicateInvoice ∧
      lifecycleOutcome job event ≠ .ignoredWorkspace := by
  unfold lifecycleOutcome
  split
  · decide
  · split
    · decide
    · split_ifs <;> decide

theorem recordTransferEvent_decides (jobId : TransferJobId) {r : EventRecord}
    {event : TransferLifecycleEvent} (hevent : r.event = .lifecycle event) :
    Establishes (respond metadata) (recordTransferEvent r event) (Decided jobId r db) db := by
  unfold recordTransferEvent
  simp only [select_bind, establishes_call, respond_select]
  refine insertEvent_decides (fun hnew db₁ h₁ => ?_)
    fun hstored => (establishes_done _).mpr (.duplicate hstored rfl rfl)
  have hevents := congrFun h₁ webhookEvents
  rw [Database.set_self] at hevents
  have hjobs : db₁ transferJobs = db transferJobs := by rw [h₁, Database.set_of_ne _ (by decide)]
  unfold updateMatched
  refine establishes_ite _ (fun ho => ?_) fun ho => (establishes_done _).mpr (.stored hnew hevents ?_)
  · refine establishes_updateRows fun _ => (establishes_done _).mpr (.stored hnew ?_ ?_)
    · rw [Database.set_of_ne _ (by decide), hevents]
    · rw [Database.set_self, hjobs, ho]
      exact .updated hevent
  · rw [hjobs]
    obtain ⟨hqueued, hduplicate, hworkspace⟩ := lifecycleOutcome_own (db transferJobs |>.filter
      fun j : TransferJobRow => j.externalId == event.externalId).head? event
    exact .untouched hqueued hduplicate hworkspace

theorem record_decides (jobId : TransferJobId) (r : EventRecord) (db : Database Row) :
    Establishes (respond metadata) (EventRecording.record jobId r) (Decided jobId r db) db := by
  unfold EventRecording.record
  split
  · next event hevent => exact recordTransferEvent_decides jobId hevent
  · next hother =>
      refine insertEvent_decides (fun hnew db₁ h₁ => ?_) (recoverDuplicate_decides jobId r)
      simp only
      split
      · next event net hevent hnet => exact decideCredited_decides jobId hevent hnet hnew h₁
      · next hnot =>
          refine (establishes_done _).mpr (.stored hnew (by rw [h₁, Database.set_self]) ?_)
          rw [h₁, Database.set_of_ne _ (by decide)]
          have hinitial : initialOutcome r = .ignored ∨ initialOutcome r = .rejected := by
            unfold initialOutcome
            split
            · exact .inl rfl
            · next hcredited =>
                split_ifs with hnone
                · exact .inr rfl
                · obtain ⟨net, hnet⟩ := Option.ne_none_iff_exists'.mp hnone
                  cases hevent : r.event with
                  | credited event => exact absurd hnet (hnot event net hevent)
                  | ignored event => exact absurd hevent (hcredited event)
                  | lifecycle event => exact absurd hevent (hother event)
          rcases hinitial with h | h <;> rw [h] <;> exact .untouched (by decide) (by decide) (by decide)

/-- The answer of the store, or a broken constraint and the database as it was. -/
theorem record_apply_decides (jobId : TransferJobId) (r : EventRecord) (db : Database Row) :
    (∃ o, ((StoreOp.events (.record jobId r)).apply db).1 = .ok o ∧
      Decided jobId r db o ((StoreOp.events (.record jobId r)).apply db).2) ∨
    ∃ e, (StoreOp.events (.record jobId r)).apply db = (.error e, db) := by
  rcases Program.atomically_cases (respond metadata) (EventRecording.record jobId r) db with
    ⟨o, db', hrun, ha⟩ | ⟨e, ha⟩
  · refine .inl ⟨o, congrArg Prod.fst ha, ?_⟩
    have hdb : ((StoreOp.events (.record jobId r)).apply db).2 = db' := congrArg Prod.snd ha
    rw [hdb]
    exact record_decides jobId r db o db' hrun
  · exact .inr ⟨e, ha⟩

end StarkbankTrial.EventOutcomes
