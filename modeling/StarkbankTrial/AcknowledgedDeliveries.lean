import StarkbankTrial.EventOutcomes
import StarkbankTrial.WebhookEndpoint

/-!
# Acknowledged deliveries last

Any number of requests are served at once and may be killed, while the other services run
their transactions between any two calls. The invariant says where the rows come from: every
stored event is the event of a request that passed the verification, and every transfer job
was queued by such a request for an event of the expected workspace. A response tells what the
recording of its own request was answered, and what it says of the stored event and its job is
a fact that no later step takes away. Each transaction of a store is one step here: they run
one at a time.
-/
namespace StarkbankTrial.AcknowledgedDeliveries
open Domain InteractivePrograms InterleavedRuns RelationalTables DatabaseSchema ExternalCalls
open DatabaseSchema.Table
open EventRecording StoreOperations EventJobCorrespondence EventOutcomes Services
open WebhookEndpoint hiding delivery

/-! ### What is delivered -/

/-- The request arrived and passed all checks. -/
structure Accepted (cfg : Endpoint) (requests : Request → Prop) (request : Request)
    (delivered : Delivery) : Prop where
  arrived : requests request
  signed : request.signature ≠ none
  fits : request.content.size ≤ cfg.maxContentLength
  verified : WebhookEndpoint.delivery cfg request = .ok delivered

def recordOf : Delivery → ℤ → EventRecord
  | .verified event payloadHash, time => receivedRecord event payloadHash time
  | .unexpectedWorkspace event payloadHash, time => foreignRecord event payloadHash time

def storeOpOf (jobId : TransferJobId) : Delivery → ℤ → EventStoreOp
  | .verified event payloadHash, time => .record jobId (receivedRecord event payloadHash time)
  | .unexpectedWorkspace event payloadHash, time =>
      .recordIgnoredWorkspace (foreignRecord event payloadHash time)

/-- The id of the event, whether it is verified or of another workspace. -/
def eventIdOf : Delivery → EventId
  | .verified event _ => event.eventId
  | .unexpectedWorkspace event _ => event.eventId

/-- The status of the response, where the recording was answered with this. -/
def statusOf : Delivery → EventWriteResult → EventWriteResult
  | .verified _ _, stored => stored
  | .unexpectedWorkspace _ _, _ => .ignoredWorkspace

def Foreign : Delivery → Prop
  | .verified _ _ => False
  | .unexpectedWorkspace _ _ => True

theorem recordOf_eventId (delivered : Delivery) (time : ℤ) :
    (recordOf delivered time).event.eventId = eventIdOf delivered := by
  cases delivered <;> rfl

section
variable (cfg : Endpoint) (requests : Request → Prop)

def Delivered (r : EventRecord) : Prop :=
  ∃ request delivered time, Accepted cfg requests request delivered ∧ r = recordOf delivered time

/-- The row of the event of an accepted request. -/
def RowOf (e : WebhookEventRow) : Prop :=
  ∃ request delivered time, Accepted cfg requests request delivered ∧
    e = eventRow (recordOf delivered time) e.outcome ∧
    (e.outcome = .ignoredWorkspace ↔ Foreign delivered)

/-- The job was queued for the credited event of an accepted request. -/
def JobOf (j : TransferJobRow) : Prop :=
  ∃ request event payloadHash,
    Accepted cfg requests request (.verified (.credited event) payloadHash) ∧
    j.eventId = event.eventId ∧ j.invoiceId = event.invoiceId ∧ j.amount = event.amount ∧
    j.fee = event.fee

structure Inv (db : Database Row) : Prop where
  consistent : metadata.Consistent db
  corresponds : Corresponds (Delivered cfg requests) db
  rows : ∀ e ∈ db webhookEvents, RowOf cfg requests e
  jobs : ∀ j ∈ db transferJobs, JobOf cfg requests j

end

/-! ### What lasts -/

/-- Nothing of a stored event changes, but for an outcome that said that the invoice was
unknown. -/
structure Outlives (e e' : WebhookEventRow) : Prop where
  row : e' = { e with outcome := e'.outcome }
  outcome : e'.outcome = e.outcome ∨
    e.outcome = .invoiceUnknown ∧ (e'.outcome = .queued ∨ e'.outcome = .duplicateInvoice)

structure Lasts (db db' : Database Row) : Prop where
  events : ∀ e ∈ db webhookEvents, ∃ e' ∈ db' webhookEvents, Outlives e e'
  jobs : ∀ j ∈ db transferJobs, ∃ j' ∈ db' transferJobs, SameTransfer j j'

theorem Outlives.refl (e : WebhookEventRow) : Outlives e e := ⟨rfl, .inl rfl⟩

theorem Outlives.trans {e e' e'' : WebhookEventRow} (h : Outlives e e') (h' : Outlives e' e'') :
    Outlives e e'' where
  row := by rw [h'.row, h.row]
  outcome := by
    rcases h.outcome with hsame | ⟨hunknown, hdecided⟩
    · exact hsame ▸ h'.outcome
    · rcases h'.outcome with hsame' | ⟨hunknown', -⟩
      · exact .inr ⟨hunknown, hsame' ▸ hdecided⟩
      · rcases hdecided with hd | hd <;> rw [hunknown'] at hd <;> cases hd

theorem Lasts.refl (db : Database Row) : Lasts db db :=
  ⟨fun e he => ⟨e, he, .refl e⟩, fun j hj => ⟨j, hj, .refl j⟩⟩

theorem Lasts.trans {db db' db'' : Database Row} (h : Lasts db db') (h' : Lasts db' db'') :
    Lasts db db'' where
  events := by
    intro e he
    obtain ⟨e', he', hout⟩ := h.events e he
    obtain ⟨e'', he'', hout'⟩ := h'.events e' he'
    exact ⟨e'', he'', hout.trans hout'⟩
  jobs := by
    intro j hj
    obtain ⟨j', hj', hs⟩ := h.jobs j hj
    obtain ⟨j'', hj'', hs'⟩ := h'.jobs j' hj'
    exact ⟨j'', hj'', hs.trans hs'⟩

/-- What an answered outcome says: the event is stored, and there is a job for the invoice
when the outcome names one. -/
structure Held (delivered : Delivery) (outcome : EventWriteResult) (db : Database Row) : Prop where
  event : ∃ e ∈ db webhookEvents, e.id = eventIdOf delivered
  job : outcome = .queued ∨ outcome = .duplicateInvoice → ∃ event payloadHash,
    delivered = .verified (.credited event) payloadHash ∧
      ∃ j ∈ db transferJobs, j.invoiceId = event.invoiceId

theorem Held.lasts {delivered : Delivery} {outcome : EventWriteResult} {db db' : Database Row}
    (h : Held delivered outcome db) (hlasts : Lasts db db') : Held delivered outcome db' where
  event := by
    obtain ⟨e, he, hid⟩ := h.event
    obtain ⟨e', he', hout⟩ := hlasts.events e he
    exact ⟨e', he', by rw [hout.row]; exact hid⟩
  job := by
    intro ho
    obtain ⟨event, payloadHash, hdelivered, j, hj, hinvoice⟩ := h.job ho
    obtain ⟨j', hj', hs⟩ := hlasts.jobs j hj
    exact ⟨event, payloadHash, hdelivered, j', hj', hs.invoiceId.trans hinvoice⟩

/-- An event of another workspace is stored, whatever the recording was answered. -/
theorem Held.status {delivered : Delivery} {stored : EventWriteResult} {db : Database Row}
    (h : Held delivered stored db) : Held delivered (statusOf delivered stored) db := by
  cases delivered with
  | verified event payloadHash => exact h
  | unexpectedWorkspace event payloadHash => exact ⟨h.event, fun ho => by simp [statusOf] at ho⟩

/-! ### One recording -/

section
variable {cfg : Endpoint} {requests : Request → Prop} {request : Request}
variable {delivered : Delivery} {db db' : Database Row} {jobId : TransferJobId} {time : ℤ}

theorem JobOf.same {j j' : TransferJobRow} (h : JobOf cfg requests j) (hs : SameTransfer j j') :
    JobOf cfg requests j' := by
  obtain ⟨request, event, payloadHash, hacc, hevent, hinvoice, hamount, hfee⟩ := h
  exact ⟨request, event, payloadHash, hacc, hs.eventId.trans hevent, hs.invoiceId.trans hinvoice,
    hs.amount.trans hamount, hs.fee.trans hfee⟩

theorem Accepted.hash (h : Accepted cfg requests request delivered) (time : ℤ) :
    (recordOf delivered time).payloadHash = cfg.sha256 request.content := by
  obtain ⟨raw, -, hverdict⟩ := delivery_ok h.verified
  cases hverdict <;> rfl

/-- Equal contents deliver equal events. -/
theorem delivered_hash
    (hhash : Set.InjOn cfg.sha256 { content | ∃ request, requests request ∧ request.content = content })
    (r r' : EventRecord) (hr : Delivered cfg requests r) (hr' : Delivered cfg requests r')
    (heq : r.payloadHash = r'.payloadHash) : r.event = r'.event := by
  obtain ⟨request, delivered, time, hacc, rfl⟩ := hr
  obtain ⟨request', delivered', time', hacc', rfl⟩ := hr'
  rw [hacc.hash, hacc'.hash] at heq
  have hsame := hhash ⟨request, hacc.arrived, rfl⟩ ⟨request', hacc'.arrived, rfl⟩ heq
  obtain rfl := delivery_content hacc.verified hacc'.verified hsame
  cases delivered <;> rfl

theorem delivered_credited {event : CreditedInvoiceEvent}
    (hevent : (recordOf delivered time).event = .credited event) :
    ∃ payloadHash, delivered = .verified (.credited event) payloadHash := by
  cases delivered with
  | verified e payloadHash => exact ⟨payloadHash, by rw [← hevent]; rfl⟩
  | unexpectedWorkspace e payloadHash => simp [recordOf, foreignRecord] at hevent

theorem delivered_net (r : EventRecord) (event : CreditedInvoiceEvent) (net : ℤ)
    (hr : Delivered cfg requests r) (hevent : r.event = .credited event)
    (hnet : r.netAmount = some net) : calculateNetAmount event.amount event.fee = .ok net := by
  obtain ⟨request, delivered, time, -, rfl⟩ := hr
  obtain ⟨payloadHash, rfl⟩ := delivered_credited hevent
  exact receivedRecord_net rfl hnet

theorem rowOf_outcome {e : WebhookEventRow} {o : EventWriteResult} (h : RowOf cfg requests e)
    (hold : e.outcome ≠ .ignoredWorkspace) (hnew : o ≠ .ignoredWorkspace) :
    RowOf cfg requests { e with outcome := o } := by
  obtain ⟨request, delivered, time, hacc, hrow, hforeign⟩ := h
  refine ⟨request, delivered, time, hacc, ?_, ?_⟩
  · rw [hrow]
    rfl
  · exact iff_of_false hnew fun hf => hold (hforeign.mpr hf)

theorem sameTransfers_jobs {condition : TransferJobRow → Bool}
    {assign : TransferJobRow → TransferJobRow} (hassign : ∀ j, SameTransfer j (assign j))
    (jobs : List TransferJobRow) :
    (∀ j ∈ jobs, ∃ j' ∈ assignWhere condition assign jobs, SameTransfer j j') ∧
      ∀ j' ∈ assignWhere condition assign jobs, ∃ j ∈ jobs, SameTransfer j j' := by
  refine ⟨fun j hj => ?_, fun j' hj' => ?_⟩
  · by_cases hc : condition j
    · exact ⟨assign j, mem_assignWhere.mpr (.inl ⟨j, hj, hc, rfl⟩), hassign j⟩
    · exact ⟨j, mem_assignWhere.mpr (.inr ⟨hj, by simpa using hc⟩), .refl j⟩
  · rcases mem_assignWhere.mp hj' with ⟨j, hj, -, rfl⟩ | ⟨hj', -⟩
    · exact ⟨j, hj, hassign j⟩
    · exact ⟨j', hj', .refl j'⟩

theorem JobsDecided.ne_ignoredWorkspace {r : EventRecord} {jobs jobs' : List TransferJobRow}
    {o : EventWriteResult} (h : JobsDecided jobId r jobs o jobs') : o ≠ .ignoredWorkspace := by
  cases h with
  | untouched _ _ hne => exact hne
  | _ => decide

/-- The jobs stay, and a new one is of the credited event. -/
theorem JobsDecided.lasts {r : EventRecord} {jobs jobs' : List TransferJobRow}
    {o : EventWriteResult} (h : JobsDecided jobId r jobs o jobs') :
    (∀ j ∈ jobs, ∃ j' ∈ jobs', SameTransfer j j') ∧
      ∀ j' ∈ jobs', (∃ j ∈ jobs, SameTransfer j j') ∨ ∃ event net,
        r.event = .credited event ∧ j' = newJob jobId event net r.receivedAt := by
  cases h with
  | @queued event net hevent hnet =>
      refine ⟨fun j hj => ⟨j, by simp [hj], .refl j⟩, fun j hj => ?_⟩
      rcases List.mem_append.mp hj with hj | hj
      · exact .inl ⟨j, hj, .refl j⟩
      · exact .inr ⟨event, net, hevent, List.mem_singleton.mp hj⟩
  | refused => exact ⟨fun j hj => ⟨j, hj, .refl j⟩, fun j hj => .inl ⟨j, hj, .refl j⟩⟩
  | untouched => exact ⟨fun j hj => ⟨j, hj, .refl j⟩, fun j hj => .inl ⟨j, hj, .refl j⟩⟩
  | @updated event hevent =>
      have hsame : ∀ j, SameTransfer j (applyLifecycle r event j) :=
        fun _ => ⟨rfl, rfl, rfl, rfl, rfl, rfl, rfl, rfl⟩
      exact ⟨(sameTransfers_jobs hsame jobs).1,
        fun j hj => .inl ((sameTransfers_jobs hsame jobs).2 j hj)⟩

/-- Stored rows of the promoted event are the one row that said unknown. -/
theorem promoted_row (hinv : Inv cfg requests db) {e a : WebhookEventRow} {eventId : EventId}
    (he : e ∈ db webhookEvents) (hid : e.id = eventId) (ha : a ∈ db webhookEvents)
    (haid : a.id = eventId) : a = e :=
  (hinv.consistent webhookEvents).eq_of_key ha he (haid.trans hid.symm)

theorem Decided.events (hinv : Inv cfg requests db)
    (hacc : Accepted cfg requests request delivered) (hown : ¬ Foreign delivered)
    {o : EventWriteResult} (h : Decided jobId (recordOf delivered time) db o db') :
    (∀ e ∈ db webhookEvents, ∃ e' ∈ db' webhookEvents, Outlives e e') ∧
      ∀ e' ∈ db' webhookEvents, RowOf cfg requests e' := by
  cases h with
  | duplicate _ hevents =>
      rw [hevents]
      exact ⟨fun e he => ⟨e, he, .refl e⟩, hinv.rows⟩
  | stored hnew hevents hjobs =>
      rw [hevents]
      refine ⟨fun e he => ⟨e, by simp [he], .refl e⟩, fun e' he' => ?_⟩
      rcases List.mem_append.mp he' with he' | he'
      · exact hinv.rows e' he'
      · obtain rfl := List.mem_singleton.mp he'
        exact ⟨request, delivered, time, hacc, rfl,
          iff_of_false (JobsDecided.ne_ignoredWorkspace hjobs) hown⟩
  | @promoted _ e _ he hid hunknown ho hevents _ =>
      rw [hevents]
      have hworkspace : o ≠ .ignoredWorkspace := by rcases ho with rfl | rfl <;> decide
      refine ⟨fun a ha => ?_, fun e' he' => ?_⟩
      · by_cases haid : a.id = (recordOf delivered time).event.eventId
        · refine ⟨{ a with outcome := o },
            mem_assignWhere.mpr (.inl ⟨a, ha, by simpa using haid, rfl⟩), rfl, .inr ⟨?_, ho⟩⟩
          rw [promoted_row hinv he hid ha haid]
          exact hunknown
        · exact ⟨a, mem_assignWhere.mpr (.inr ⟨ha, by simpa using haid⟩), .refl a⟩
      · rcases mem_assignWhere.mp he' with ⟨a, ha, haid, rfl⟩ | ⟨he', -⟩
        · refine rowOf_outcome (hinv.rows a ha) ?_ hworkspace
          rw [promoted_row hinv he hid ha (by simpa using haid), hunknown]
          decide
        · exact hinv.rows e' he'

theorem Decided.jobs {r : EventRecord} {o : EventWriteResult} (h : Decided jobId r db o db') :
    (∀ j ∈ db transferJobs, ∃ j' ∈ db' transferJobs, SameTransfer j j') ∧
      ∀ j' ∈ db' transferJobs, (∃ j ∈ db transferJobs, SameTransfer j j') ∨ ∃ event net,
        r.event = .credited event ∧ j' = newJob jobId event net r.receivedAt := by
  cases h with
  | duplicate _ _ hjobs =>
      exact hjobs ▸ ⟨fun j hj => ⟨j, hj, .refl j⟩, fun j hj => .inl ⟨j, hj, .refl j⟩⟩
  | stored _ _ hjobs => exact JobsDecided.lasts hjobs
  | promoted _ _ _ _ _ hjobs => exact JobsDecided.lasts hjobs

theorem Decided.jobOf (hinv : Inv cfg requests db)
    (hacc : Accepted cfg requests request delivered) {o : EventWriteResult}
    (h : Decided jobId (recordOf delivered time) db o db') :
    ∀ j ∈ db' transferJobs, JobOf cfg requests j := by
  intro j' hj'
  rcases (Decided.jobs h).2 j' hj' with ⟨j, hj, hs⟩ | ⟨event, net, hevent, rfl⟩
  · exact (hinv.jobs j hj).same hs
  · obtain ⟨payloadHash, rfl⟩ := delivered_credited hevent
    exact ⟨request, event, payloadHash, hacc, rfl, rfl, rfl, rfl⟩

/-- A refused job has a job for its invoice beside it, when the event has none. -/
theorem refused_job (hinv : Inv cfg requests db) {event : CreditedInvoiceEvent} {net : ℤ}
    (hnet : calculateNetAmount event.amount event.fee = .ok net)
    (hfresh : ∀ j ∈ db transferJobs, j.id ≠ jobId)
    (hjobless : ∀ j ∈ db transferJobs, j.eventId ≠ event.eventId) {receivedAt : ℤ}
    (h : Refused (newJob jobId event net receivedAt) (db transferJobs)) :
    ∃ j ∈ db transferJobs, j.invoiceId = event.invoiceId := by
  obtain ⟨hamount, hfee, -, hpos⟩ := calculateNetAmount_ok hnet
  rcases h with hcheck | ⟨j, hj, hclash⟩
  · exact absurd hcheck (by simp [metadata, rowCheck, newJob, hamount, hfee, hpos])
  · refine ⟨j, hj, ?_⟩
    have hformed := hinv.corresponds.well_formed j hj
    simp only [metadata, uniqueConflict, newJob, sameNonNull, Bool.or_eq_true, beq_iff_eq]
      at hclash
    rcases hclash with ((((hid | hevent) | hinvoice) | hexternal) | htag) | hprovider
    · exact absurd hid (hfresh j hj)
    · exact absurd hevent (hjobless j hj)
    · exact hinvoice
    · rw [hformed.externalId_eq] at hexternal
      exact buildTransferCommand_externalId_inj.mp hexternal
    · rw [hformed.tag_eq] at htag
      exact buildTransferCommand_tag_inj.mp htag
    · simp at hprovider

theorem jobsDecided_held (hinv : Inv cfg requests db)
    (hacc : Accepted cfg requests request delivered)
    (hfresh : ∀ j ∈ db transferJobs, j.id ≠ jobId)
    (hjobless : ∀ j ∈ db transferJobs, j.eventId ≠ eventIdOf delivered) {o : EventWriteResult}
    {jobs : List TransferJobRow}
    (h : JobsDecided jobId (recordOf delivered time) (db transferJobs) o jobs)
    (ho : o = .queued ∨ o = .duplicateInvoice) : ∃ event payloadHash,
      delivered = .verified (.credited event) payloadHash ∧
        ∃ j ∈ jobs, j.invoiceId = event.invoiceId := by
  cases h with
  | @queued event net hevent _ =>
      obtain ⟨payloadHash, rfl⟩ := delivered_credited hevent
      exact ⟨event, payloadHash, rfl, newJob jobId event net _,
        List.mem_append.mpr (.inr (List.mem_singleton.mpr rfl)), rfl⟩
  | @refused event net hevent hnet hrefused =>
      have hcalc := delivered_net _ event net ⟨request, delivered, time, hacc, rfl⟩ hevent hnet
      obtain ⟨payloadHash, rfl⟩ := delivered_credited hevent
      exact ⟨event, payloadHash, rfl, refused_job hinv hcalc hfresh hjobless hrefused⟩
  | untouched hqueued hduplicate => exact absurd ho (by simp [hqueued, hduplicate])
  | updated => exact absurd ho (by decide)

/-- What the answer says is so. -/
theorem Decided.held (hinv : Inv cfg requests db)
    (hacc : Accepted cfg requests request delivered)
    (hfresh : ∀ j ∈ db transferJobs, j.id ≠ jobId) {o : EventWriteResult}
    (h : Decided jobId (recordOf delivered time) db o db') : Held delivered o db' := by
  have hjob := hinv.corresponds.job_event
  cases h with
  | duplicate hstored hevents _ =>
      rw [recordOf_eventId] at hstored
      exact ⟨hevents ▸ hstored, fun ho => absurd ho (by decide)⟩
  | stored hnew hevents hjobs =>
      rw [recordOf_eventId] at hnew
      refine ⟨⟨eventRow (recordOf delivered time) o, ?_, recordOf_eventId delivered time⟩,
        jobsDecided_held hinv hacc hfresh (fun j hj hid => ?_) hjobs⟩
      · rw [hevents]
        exact List.mem_append.mpr (.inr (by simp))
      · obtain ⟨e, he, heid, -⟩ := hjob j hj
        exact hnew e he (heid.trans hid)
  | @promoted _ e _ he hid hunknown ho hevents hjobs =>
      rw [recordOf_eventId] at hid hevents
      refine ⟨?_, jobsDecided_held hinv hacc hfresh (fun j hj hjid => ?_) hjobs⟩
      · obtain ⟨e', he', hid', -⟩ := withOutcome_mem (eventIdOf delivered) o he
        exact ⟨e', hevents ▸ he', hid'.trans hid⟩
      · obtain ⟨a, ha, haid, hqueued, -⟩ := hjob j hj
        rw [promoted_row hinv he hid ha (haid.trans hjid), hunknown] at hqueued
        cases hqueued

/-- An event of another workspace is stored as such, or its id is there already. -/
theorem recordIgnoredWorkspace_apply (r : EventRecord) (db : Database Row) :
    (((StoreOp.events (.recordIgnoredWorkspace r)).apply db).1 = .ok .ignoredWorkspace ∧
      ((StoreOp.events (.recordIgnoredWorkspace r)).apply db).2 =
        db.set webhookEvents (db webhookEvents ++ [eventRow r .ignoredWorkspace])) ∨
    ((∃ e ∈ db webhookEvents, e.id = r.event.eventId) ∧
      (StoreOp.events (.recordIgnoredWorkspace r)).apply db = (.ok .duplicateEvent, db)) ∨
    ∃ e, (StoreOp.events (.recordIgnoredWorkspace r)).apply db = (.error e, db) := by
  rcases Program.atomically_cases (respond metadata) (recordIgnoredWorkspace r) db with
    ⟨o, db', hrun, ha⟩ | ⟨e, ha⟩
  · have hpost : Program.Establishes (respond metadata) (recordIgnoredWorkspace r) (fun o db' =>
        (o = .ignoredWorkspace ∧
          db' = db.set webhookEvents (db webhookEvents ++ [eventRow r .ignoredWorkspace])) ∨
        ((∃ e ∈ db webhookEvents, e.id = r.event.eventId) ∧ o = .duplicateEvent ∧ db' = db)) db :=
      insertEvent_decides (fun _ db' hdb' => (Program.establishes_done _).mpr (.inl ⟨rfl, hdb'⟩))
        fun hstored => (Program.establishes_done _).mpr (.inr ⟨hstored, rfl, rfl⟩)
    rcases hpost o db' hrun with ⟨rfl, rfl⟩ | ⟨hstored, rfl, rfl⟩
    · exact .inl ⟨congrArg Prod.fst ha, congrArg Prod.snd ha⟩
    · exact .inr (.inl ⟨hstored, ha⟩)
  · exact .inr (.inr ⟨e, ha⟩)

/-- What a recording does to the events and jobs, and that its answer is so. -/
structure Recorded (cfg : Endpoint) (requests : Request → Prop) (delivered : Delivery)
    (db : Database Row) (answer : Except StoreError EventWriteResult × Database Row) : Prop where
  lasts : Lasts db answer.2
  rows : ∀ e ∈ answer.2 webhookEvents, RowOf cfg requests e
  jobs : ∀ j ∈ answer.2 transferJobs, JobOf cfg requests j
  held : ∀ o, answer.1 = .ok o → Held delivered o answer.2

theorem Recorded.failed (hinv : Inv cfg requests db) (e : StoreError) :
    Recorded cfg requests delivered db (.error e, db) :=
  ⟨.refl db, hinv.rows, hinv.jobs, fun o ho => by cases ho⟩

theorem verified_recorded (hinv : Inv cfg requests db) {event : VerifiedEvent}
    {payloadHash : String} (hacc : Accepted cfg requests request (.verified event payloadHash))
    (hfresh : ∀ j ∈ db transferJobs, j.id ≠ jobId) (time : ℤ) :
    Recorded cfg requests (.verified event payloadHash) db
      ((StoreOp.events (.record jobId (receivedRecord event payloadHash time))).apply db) := by
  rcases record_apply_decides jobId (receivedRecord event payloadHash time) db with
    ⟨o, ho, hdecided⟩ | ⟨e, he⟩
  · change Decided jobId (recordOf (.verified event payloadHash) time) db o _ at hdecided
    obtain ⟨hevents, hrows⟩ := Decided.events hinv hacc id hdecided
    refine ⟨⟨hevents, (Decided.jobs hdecided).1⟩, hrows, Decided.jobOf hinv hacc hdecided,
      fun o' ho' => ?_⟩
    obtain rfl := Except.ok.inj (ho.symm.trans ho')
    exact Decided.held hinv hacc hfresh hdecided
  · exact he ▸ .failed hinv e

theorem foreign_recorded (hinv : Inv cfg requests db) {event : IgnoredEvent}
    {payloadHash : String}
    (hacc : Accepted cfg requests request (.unexpectedWorkspace event payloadHash)) (time : ℤ) :
    Recorded cfg requests (.unexpectedWorkspace event payloadHash) db
      ((StoreOp.events (.recordIgnoredWorkspace (foreignRecord event payloadHash time))).apply
        db) := by
  rcases recordIgnoredWorkspace_apply (foreignRecord event payloadHash time) db with
    ⟨ho, hdb⟩ | ⟨hstored, heq⟩ | ⟨e, he⟩
  · have hevents := congrFun hdb webhookEvents
    rw [Database.set_self] at hevents
    have hjobs := congrFun hdb transferJobs
    rw [Database.set_of_ne _ (by decide)] at hjobs
    refine ⟨⟨fun e he => ⟨e, hevents ▸ List.mem_append.mpr (.inl he), .refl e⟩,
      fun j hj => ⟨j, hjobs ▸ hj, .refl j⟩⟩, fun e he => ?_, hjobs ▸ hinv.jobs, fun o ho' => ?_⟩
    · rw [hevents] at he
      rcases List.mem_append.mp he with he | he
      · exact hinv.rows e he
      · obtain rfl := List.mem_singleton.mp he
        exact ⟨request, _, time, hacc, rfl, iff_of_true rfl trivial⟩
    · obtain rfl := Except.ok.inj (ho.symm.trans ho')
      exact ⟨⟨_, hevents ▸ List.mem_append.mpr (.inr (List.mem_singleton.mpr rfl)), rfl⟩,
        fun h => absurd h (by decide)⟩
  · rw [heq]
    refine ⟨.refl db, hinv.rows, hinv.jobs, fun o ho => ?_⟩
    obtain rfl := Except.ok.inj ho
    exact ⟨hstored, fun h => absurd h (by decide)⟩
  · exact he ▸ .failed hinv e

/-! ### Steps on the database -/

/-- `uuid4` draws an id that no job has. -/
def DrawsFresh (db : Database Row) : StoreOp → Prop
  | .events (.record jobId _) => ∀ j ∈ db transferJobs, j.id ≠ jobId
  | _ => True

/-- A recording keeps the invariant and what there is, and answers what is so. -/
theorem Inv.record (hinv : Inv cfg requests db)
    (hhash : Set.InjOn cfg.sha256
      { content | ∃ request, requests request ∧ request.content = content })
    (hacc : Accepted cfg requests request delivered)
    (hfresh : DrawsFresh db (.events (storeOpOf jobId delivered time))) :
    Inv cfg requests ((StoreOp.events (storeOpOf jobId delivered time)).apply db).2 ∧
      Recorded cfg requests delivered db
        ((StoreOp.events (storeOpOf jobId delivered time)).apply db) := by
  have hrecorded : Recorded cfg requests delivered db
      ((StoreOp.events (storeOpOf jobId delivered time)).apply db) := by
    cases delivered with
    | verified event payloadHash => exact verified_recorded hinv hacc hfresh time
    | unexpectedWorkspace event payloadHash => exact foreign_recorded hinv hacc time
  have hdelivered : ∀ r, EventJobCorrespondence.delivery
      (.events (storeOpOf jobId delivered time)) = some r → Delivered cfg requests r := by
    cases delivered <;> rintro r ⟨⟩ <;> exact ⟨request, _, time, hacc, rfl⟩
  exact ⟨⟨StoreOp.apply_consistent hinv.consistent _,
    apply_corresponds (delivered_hash hhash) delivered_net hdelivered hinv.consistent
      hinv.corresponds, hrecorded.rows, hrecorded.jobs⟩, hrecorded⟩

/-- The transactions of the other services neither write events nor make jobs. -/
theorem Inv.other (hinv : Inv cfg requests db) {op : StoreOp} (hop : ∀ op', op ≠ .events op') :
    Inv cfg requests (op.apply db).2 ∧ Lasts db (op.apply db).2 := by
  have hevents : (op.apply db).2 webhookEvents = db webhookEvents := by
    refine StoreOp.apply_frame op ?_ db
    cases op with
    | events op => exact absurd rfl (hop op)
    | invoices op => cases op <;> simp [StoreOp.tables, InvoiceStoreOp.tables]
    | trials op => cases op <;> simp [StoreOp.tables, TrialStoreOp.tables]
    | transfers op => cases op <;> simp [StoreOp.tables, TransferStoreOp.tables]
  have hjobs : SameTransfers db (op.apply db).2 := StoreOp.apply_sameTransfers hop db
  refine ⟨⟨StoreOp.apply_consistent hinv.consistent op,
    hinv.corresponds.of_sameTransfers hevents hjobs, hevents ▸ hinv.rows, fun j hj => ?_⟩, ?_⟩
  · obtain ⟨j₀, hj₀, hs⟩ := hjobs.no_new j hj
    exact (hinv.jobs j₀ hj₀).same hs
  · exact ⟨fun e he => ⟨e, hevents ▸ he, .refl e⟩, hjobs.kept⟩

theorem Inv.reordered (hinv : Inv cfg requests db) (h : Reordered db db') :
    Inv cfg requests db' ∧ Lasts db db' := by
  have hcorr := hinv.corresponds
  refine ⟨⟨h.consistent hinv.consistent, ⟨fun j hj => ?_, fun e he hq => ?_, fun j hj => ?_,
    fun e he => ?_⟩, fun e he => hinv.rows e (h.mem.mp he), fun j hj => hinv.jobs j (h.mem.mp hj)⟩,
    ⟨fun e he => ⟨e, h.mem.mpr he, .refl e⟩, fun j hj => ⟨j, h.mem.mpr hj, .refl j⟩⟩⟩
  · obtain ⟨e, he, hrest⟩ := hcorr.job_event j (h.mem.mp hj)
    exact ⟨e, h.mem.mpr he, hrest⟩
  · obtain ⟨j, hj, hid⟩ := hcorr.queued_job e (h.mem.mp he) hq
    exact ⟨j, h.mem.mpr hj, hid⟩
  · exact hcorr.well_formed j (h.mem.mp hj)
  · exact hcorr.came_from e (h.mem.mp he)

end

/-! ### The endpoint among the other services -/

/-- What the process was answered last. -/
def latest {ι : Type} [DecidableEq ι] (i : ι) (l : Log ι Call Call.Answer) :
    Option (Entry ι Call Call.Answer) :=
  l.find? fun e => e.process = i

section
variable {ι : Type} [DecidableEq ι] {i : ι} {l : Log ι Call Call.Answer}

theorem latest_own (call : Call) (r : call.Answer) :
    latest i (⟨i, call, r⟩ :: l) = some ⟨i, call, r⟩ :=
  List.find?_cons_of_pos (by simp)

theorem latest_other {j : ι} (hj : j ≠ i) (call : Call) (r : call.Answer) :
    latest j (⟨i, call, r⟩ :: l) = latest j l :=
  List.find?_cons_of_neg (by simpa using hj.symm)

end

section
variable {ι : Type} (cfg : Endpoint) (requests : Request → Prop) (provider : Provider)

/-- Any request that arrives is served at any time. Between two calls rows are reordered and
the other services run their transactions. -/
def endpoint : System ι Call Call.Answer Failure Exchange World where
  admits := fun _ _ _ p => ∃ jobId request, requests request ∧ p = serve cfg jobId request
  exec := fun _ w _ call r w' => Performs provider (fun _ => True) w call r w' ∧
    ∀ op, call = .store op → DrawsFresh w.db op
  drift := fun _ w w' => Reordered w.db w'.db ∨
    ∃ op : StoreOp, (∀ op', op ≠ .events op') ∧ w'.db = (op.apply w.db).2
  dies := fun _ w _ w' => w' = w

/-- What the endpoint calls. -/
def Calls : Call → Prop
  | .now => True
  | .store op => ∃ jobId request delivered time, Accepted cfg requests request delivered ∧
      op = .events (storeOpOf jobId delivered time)
  | _ => False

variable [DecidableEq ι]

/-- The others leave the last answer of a process alone, and what there is lasts. -/
def protocol : Protocol ι Call Call.Answer Failure Exchange World where
  toSystem := endpoint cfg requests provider
  inv := fun _ w => Inv cfg requests w.db
  rely := fun i l w l' w' => latest i l' = latest i l ∧ Lasts w.db w'.db
  demand := fun _ call _ _ => Calls cfg requests call

/-- The last call of the process recorded this delivery, with this answer. -/
def Stored (i : ι) (delivered : Delivery) (stored : EventWriteResult)
    (l : Log ι Call Call.Answer) : Prop :=
  ∃ jobId time, latest i l =
    some ⟨i, .store (.events (storeOpOf jobId delivered time)), .ok stored⟩

/-- What a response of the process promises: only accepted requests are acknowledged, the
status tells what the recording of the request was answered, or that the event is of another
workspace, and what the status says is so. -/
def Promised (i : ι) (x : Exchange) (l : Log ι Call Call.Answer) (db : Database Row) : Prop :=
  x.response.code = 200 → ∃ delivered stored, Accepted cfg requests x.request delivered ∧
    Stored i delivered stored l ∧
    x.response.body = .status (statusOf delivered stored).value ∧
    Held delivered (statusOf delivered stored) db

end

section
variable {ι : Type} [DecidableEq ι] {cfg : Endpoint} {requests : Request → Prop}
variable {provider : Provider} {jobId : TransferJobId} {request : Request}
variable {delivered : Delivery} {i : ι} {l : Log ι Call Call.Answer} {w : World}

theorem Promised.lasts {x : Exchange} {db db' : Database Row}
    (h : Promised cfg requests i x l db) (hlasts : Lasts db db') :
    Promised cfg requests i x l db' := by
  intro hcode
  obtain ⟨delivered, stored, hacc, hstored, hbody, hheld⟩ := h hcode
  exact ⟨delivered, stored, hacc, hstored, hbody, hheld.lasts hlasts⟩

theorem Stored.rely {stored : EventWriteResult} {l' : Log ι Call Call.Answer}
    (h : Stored i delivered stored l) (hlatest : latest i l' = latest i l) :
    Stored i delivered stored l' := by
  obtain ⟨jobId, time, hentry⟩ := h
  exact ⟨jobId, time, hlatest.trans hentry⟩

omit [DecidableEq ι] in
theorem drift_step {w' : World} (hinv : Inv cfg requests w.db)
    (h : (endpoint (ι := ι) cfg requests provider).drift l w w') :
    Inv cfg requests w'.db ∧ Lasts w.db w'.db := by
  rcases h with hreordered | ⟨op, hop, hw'⟩
  · exact hinv.reordered hreordered
  · exact hw' ▸ hinv.other hop

theorem sound : (protocol (ι := ι) cfg requests provider).Sound where
  rely_refl := fun _ _ w => ⟨rfl, .refl w.db⟩
  rely_trans := fun _ _ _ _ _ _ _ h h' => ⟨h'.1.trans h.1, h.2.trans h'.2⟩
  drift_keeps := by
    intro l w w' hinv h
    obtain ⟨hinv', hlasts⟩ := drift_step hinv h
    exact ⟨hinv', fun _ => ⟨rfl, hlasts⟩⟩
  dies_keeps := by
    rintro l w i w' hinv rfl
    exact ⟨hinv, fun j _ => ⟨rfl, .refl w'.db⟩⟩

omit [DecidableEq ι] in
/-- A call of the endpoint keeps the invariant and what there is. -/
theorem exec_step
    (hhash : Set.InjOn cfg.sha256
      { content | ∃ request, requests request ∧ request.content = content })
    {call : Call} {r : call.Answer} {w' : World} (hinv : Inv cfg requests w.db)
    (hcalls : Calls cfg requests call) (h : (endpoint cfg requests provider).exec l w i call r w') :
    Inv cfg requests w'.db ∧ Lasts w.db w'.db := by
  obtain ⟨hperforms, hfresh⟩ := h
  match call, hcalls with
  | .now, _ =>
      obtain ⟨-, rfl⟩ := hperforms
      exact ⟨hinv, .refl _⟩
  | .store _, ⟨jobId, request, delivered, time, hacc, rfl⟩ =>
      obtain ⟨-, rfl⟩ := hperforms
      obtain ⟨hinv', hrecorded⟩ := hinv.record hhash hacc (hfresh _ rfl)
      exact ⟨hinv', hrecorded.lasts⟩

theorem now_triple
    (hhash : Set.InjOn cfg.sha256
      { content | ∃ request, requests request ∧ request.content = content }) :
    (protocol cfg requests provider).Triple i (fun _ _ => True) .now fun _ _ _ => True where
  stable := fun _ _ _ _ _ _ _ => trivial
  demand := fun _ _ _ _ => trivial
  keeps := by
    intro l w r w' _ hinv h
    have hstep := exec_step hhash hinv (show Calls cfg requests .now from trivial) h
    exact ⟨hstep.1, fun j hj => ⟨latest_other hj _ _, hstep.2⟩⟩
  result := fun _ _ _ _ _ _ _ => trivial

theorem store_triple
    (hhash : Set.InjOn cfg.sha256
      { content | ∃ request, requests request ∧ request.content = content })
    (hacc : Accepted cfg requests request delivered) (jobId : TransferJobId) (time : ℤ) :
    (protocol cfg requests provider).Triple i (fun _ _ => True)
      (.store (.events (storeOpOf jobId delivered time)))
      fun r l w => ∀ o, r = .ok o → Stored i delivered o l ∧ Held delivered o w.db where
  stable := fun _ _ _ _ _ _ _ => trivial
  demand := fun _ _ _ _ => ⟨jobId, request, delivered, time, hacc, rfl⟩
  keeps := by
    intro l w r w' _ hinv h
    have hcalls : Calls cfg requests (.store (.events (storeOpOf jobId delivered time))) :=
      ⟨jobId, request, delivered, time, hacc, rfl⟩
    have hstep := exec_step hhash hinv hcalls h
    exact ⟨hstep.1, fun j hj => ⟨latest_other hj _ _, hstep.2⟩⟩
  result := by
    rintro l w r w' - hinv ⟨⟨rfl, rfl⟩, hfresh⟩ o ho
    refine ⟨⟨jobId, time, ?_⟩, (Inv.record hinv hhash hacc (hfresh _ rfl)).2.held o ho⟩
    rw [latest_own, ho]

/-- The delivery was recorded, and the status for it is this. -/
def Status (i : ι) (delivered : Delivery) (status : EventWriteResult)
    (l : Log ι Call Call.Answer) (db : Database Row) : Prop :=
  ∃ stored, Stored i delivered stored l ∧ statusOf delivered stored = status ∧
    Held delivered status db

/-- What is so where the service ends. -/
def Answered (i : ι) (delivered : Delivery) :
    Except Failure EventWriteResult → Log ι Call Call.Answer → Database Row → Prop
  | .ok outcome, l, db => Status i delivered outcome l db
  | .error (.unexpectedWorkspace _), l, db => Status i delivered .ignoredWorkspace l db
  | .error _, _, _ => True

theorem Status.rely {status : EventWriteResult} {l' : Log ι Call Call.Answer} {w' : World}
    (h : Status i delivered status l w.db)
    (hrely : (protocol cfg requests provider).rely i l w l' w') :
    Status i delivered status l' w'.db := by
  obtain ⟨stored, hstored, hstatus, hheld⟩ := h
  exact ⟨stored, hstored.rely hrely.1, hstatus, hheld.lasts hrely.2⟩

theorem receive_ensures
    (hhash : Set.InjOn cfg.sha256
      { content | ∃ request, requests request ∧ request.content = content })
    (hacc : Accepted cfg requests request delivered) :
    Ensures (protocol cfg requests provider) i (receive jobId delivered)
      (fun o l w => Answered i delivered o l w.db) l w := by
  cases delivered with
  | verified event payloadHash =>
      refine .call trivial (now_triple hhash) fun time l w _ => ?_
      refine .call trivial (store_triple hhash hacc jobId time) fun r l w hresult => ?_
      cases r with
      | error e => exact fun _ _ _ _ => trivial
      | ok o =>
          obtain ⟨hstored, hheld⟩ := hresult o rfl
          have hstatus : Status i (.verified event payloadHash) o l w.db :=
            ⟨o, hstored, rfl, hheld⟩
          exact fun l' w' hrely _ => hstatus.rely hrely
  | unexpectedWorkspace event payloadHash =>
      refine .call trivial (now_triple hhash) fun time l w _ => ?_
      refine .call trivial (store_triple hhash hacc jobId time) fun r l w hresult => ?_
      cases r with
      | error e => exact fun _ _ _ _ => trivial
      | ok o =>
          obtain ⟨hstored, hheld⟩ := hresult o rfl
          have hstatus : Status i (.unexpectedWorkspace event payloadHash) .ignoredWorkspace l
              w.db := ⟨o, hstored, rfl, hheld.status⟩
          exact fun l' w' hrely _ => hstatus.rely hrely

/-- A request that is not acknowledged promises nothing. -/
theorem refused_ensures {response : Response} (hcode : response.code ≠ 200) :
    Ensures (protocol cfg requests provider) i (.done ⟨request, response⟩ : Service Exchange)
      (fun o l w => ∃ x, o = .ok x ∧ Promised cfg requests i x l w.db) l w :=
  fun _ _ _ _ => ⟨_, rfl, fun h => absurd h hcode⟩

theorem acknowledged_ensures {status : EventWriteResult}
    (hacc : Accepted cfg requests request delivered) (h : Status i delivered status l w.db) :
    Ensures (protocol cfg requests provider) i
      (.done ⟨request, ⟨200, .status status.value⟩⟩ : Service Exchange)
      (fun o l w => ∃ x, o = .ok x ∧ Promised cfg requests i x l w.db) l w := by
  intro l' w' hrely _
  obtain ⟨stored, hstored, rfl, hheld⟩ := h.rely hrely
  exact ⟨_, rfl, fun _ => ⟨delivered, stored, hacc, hstored, rfl, hheld⟩⟩

theorem serve_ensures
    (hhash : Set.InjOn cfg.sha256
      { content | ∃ request, requests request ∧ request.content = content })
    (harrived : requests request) :
    Ensures (protocol cfg requests provider) i (serve cfg jobId request)
      (fun o l w => ∃ x, o = .ok x ∧ Promised cfg requests i x l w.db) l w := by
  unfold serve starkbankWebhook
  split
  · exact refused_ensures (by decide)
  · next signature hsigned =>
      split_ifs with hsize
      · exact refused_ensures (by decide)
      · split
        · exact refused_ensures (by decide)
        · exact refused_ensures (by decide)
        · exact refused_ensures (by decide)
        · next delivered hdelivered =>
            have hacc : Accepted cfg requests request delivered :=
              ⟨harrived, by simp [hsigned], Nat.le_of_not_lt hsize, hdelivered⟩
            rw [bind_assoc]
            refine .bind sound ((receive_ensures hhash hacc).attempt.mono fun o l w ho => ?_)
            obtain ⟨answer, rfl, hanswer⟩ := ho
            match answer, hanswer with
            | .ok outcome, hstatus => exact acknowledged_ensures hacc hstatus
            | .error (.unexpectedWorkspace _), hstatus =>
                have hignored : Status i delivered .ignoredWorkspace l w.db := hstatus
                exact acknowledged_ensures hacc hignored
            | .error (.store _), _ => exact refused_ensures (by decide)
            | .error (.provider _), _ => exact refused_ensures (by decide)
            | .error (.liveOperationsDisabled _), _ => exact refused_ensures (by decide)
            | .error .invalidStartTime, _ => exact refused_ensures (by decide)
            | .error (.invalidBatchCount _), _ => exact refused_ensures (by decide)

theorem kept
    (hhash : Set.InjOn cfg.sha256
      { content | ∃ request, requests request ∧ request.content = content }) :
    (protocol (ι := ι) cfg requests provider).Kept Unconditionally
      fun i o l w => ∃ x, o = .ok x ∧ Promised cfg requests i x l w.db where
  toSound := sound
  begins := by
    rintro l w i p - - ⟨jobId, request, harrived, rfl⟩
    exact serve_ensures hhash harrived

theorem Inv.empty : Inv cfg requests emptyDatabase :=
  ⟨emptyDatabase_consistent, ⟨by simp [emptyDatabase], by simp [emptyDatabase],
    by simp [emptyDatabase], by simp [emptyDatabase]⟩, by simp [emptyDatabase],
    by simp [emptyDatabase]⟩

/-- From a reached configuration on, what there is lasts. -/
theorem runs_last
    (hhash : Set.InjOn cfg.sha256
      { content | ∃ request, requests request ∧ request.content = content })
    (hinv : Inv cfg requests w.db) {c d : Config ι Call Call.Answer Failure Exchange World}
    (h : Runs (endpoint cfg requests provider) (.initial w) c)
    (h' : Runs (endpoint cfg requests provider) c d) : Lasts c.state.db d.state.db := by
  refine (kept hhash).rel (s := w) hinv (fun w w' => Lasts w.db w'.db) (fun w => .refl w.db)
    (fun _ _ _ => Lasts.trans) ?_ ?_ ?_ h h'
  · exact fun l w i op r w' hinv hcalls hexec => (exec_step hhash hinv hcalls hexec).2
  · exact fun l w w' hinv hdrift => (drift_step hinv hdrift).2
  · rintro l w i w' - rfl
    exact .refl _

/-- Over every interleaving of deliveries with everything else, a response that acknowledges
a delivery was sent for a request that passed every check, its status is what the recording
of the request was answered (or says that the event is of another workspace), and from then on
the event stays stored, and so does the job that the status speaks of. -/
theorem acknowledged_lasts
    (hhash : Set.InjOn cfg.sha256
      { content | ∃ request, requests request ∧ request.content = content })
    (hempty : w.db = emptyDatabase) {c d : Config ι Call Call.Answer Failure Exchange World}
    (h : Runs (endpoint cfg requests provider) (.initial w) c)
    (h' : Runs (endpoint cfg requests provider) c d) {x : Exchange}
    (hi : c.procs i = some (.done x)) : Promised cfg requests i x c.log d.state.db := by
  have hinv : Inv cfg requests w.db := hempty ▸ .empty
  have hkept : (protocol (ι := ι) cfg requests provider).Kept Unconditionally _ := kept hhash
  obtain ⟨hinv', hstands⟩ := hkept.ensured (s := w) hinv h fun _ => trivial
  have hfinished := hstands i
  rw [hi] at hfinished
  obtain ⟨x', hx, hpromised⟩ := hfinished _ _ ⟨rfl, .refl _⟩ hinv'
  obtain rfl := Except.ok.inj hx
  exact hpromised.lasts (runs_last hhash hinv h h')

/-! ### Nothing is stored without a signature -/

/-- Jobs and events come from requests whose signature was accepted, a job has the amounts of
its credited event, and an event of another workspace is only stored. -/
structure Authentic (cfg : Endpoint) (requests : Request → Prop) (db : Database Row) : Prop where
  job : ∀ j ∈ db transferJobs, ∃ request event payloadHash,
    Accepted cfg requests request (.verified (.credited event) payloadHash) ∧
      request.check = .ok () ∧ (∀ w, cfg.expectedWorkspaceId = some w → event.workspaceId = w) ∧
      j.invoiceId = event.invoiceId ∧ j.amount = event.amount ∧ j.fee = event.fee ∧
      j.netAmount = event.amount - event.fee ∧ 0 < j.netAmount
  event : ∀ e ∈ db webhookEvents, ∃ request delivered, Accepted cfg requests request delivered ∧
    request.check = .ok () ∧ e.id = eventIdOf delivered ∧
      e.payloadHash = cfg.sha256 request.content
  foreign : ∀ w, cfg.expectedWorkspaceId = some w → ∀ e ∈ db webhookEvents,
    (e.workspaceId ≠ w ↔ e.outcome = .ignoredWorkspace) ∧
      (e.workspaceId ≠ w → ∀ j ∈ db transferJobs, j.eventId ≠ e.id)

theorem Accepted.checked (h : Accepted cfg requests request delivered) :
    request.check = .ok () := by
  obtain ⟨raw, hreads, -⟩ := delivery_ok h.verified
  exact hreads.checked

theorem Accepted.workspace {event : VerifiedEvent} {payloadHash : String}
    (h : Accepted cfg requests request (.verified event payloadHash)) {w : String}
    (hw : cfg.expectedWorkspaceId = some w) : event.workspaceId = w := by
  obtain ⟨raw, -, hverdict⟩ := delivery_ok h.verified
  cases hverdict with
  | verified hparsed => exact verifyParsed_ok hparsed hw

theorem Accepted.otherWorkspace {event : IgnoredEvent} {payloadHash : String}
    (h : Accepted cfg requests request (.unexpectedWorkspace event payloadHash)) {w : String}
    (hw : cfg.expectedWorkspaceId = some w) : event.workspaceId ≠ w := by
  obtain ⟨raw, -, hverdict⟩ := delivery_ok h.verified
  cases hverdict with
  | unexpectedWorkspace hparsed =>
      obtain ⟨w', hw', hne⟩ := verifyParsed_foreign hparsed
      rw [hw] at hw'
      exact Option.some.inj hw' ▸ hne

/-- A stored event is of another workspace exactly when it was set aside. -/
theorem RowOf.workspace {e : WebhookEventRow} (h : RowOf cfg requests e) {w : String}
    (hw : cfg.expectedWorkspaceId = some w) :
    e.workspaceId ≠ w ↔ e.outcome = .ignoredWorkspace := by
  obtain ⟨request, delivered, time, hacc, hrow, hforeign⟩ := h
  have hworkspace : e.workspaceId = (recordOf delivered time).event.workspaceId := by
    rw [hrow]
    rfl
  rw [hworkspace, hforeign]
  cases delivered with
  | verified event payloadHash => exact iff_of_false (not_not.mpr (hacc.workspace hw)) id
  | unexpectedWorkspace event payloadHash => exact iff_of_true (hacc.otherWorkspace hw) trivial

theorem Inv.authentic {db : Database Row} (hinv : Inv cfg requests db) :
    Authentic cfg requests db where
  job := by
    intro j hj
    obtain ⟨request, event, payloadHash, hacc, -, hinvoice, hamount, hfee⟩ := hinv.jobs j hj
    have hformed := hinv.corresponds.well_formed j hj
    refine ⟨request, event, payloadHash, hacc, hacc.checked, fun w hw => hacc.workspace hw,
      hinvoice, hamount, hfee, ?_, hformed.netAmount_pos⟩
    rw [hformed.netAmount_eq, hamount, hfee]
  event := by
    intro e he
    obtain ⟨request, delivered, time, hacc, hrow, -⟩ := hinv.rows e he
    refine ⟨request, delivered, hacc, hacc.checked, ?_, ?_⟩
    · rw [hrow]
      exact recordOf_eventId delivered time
    · rw [hrow]
      exact hacc.hash time
  foreign := by
    intro w hw e he
    have hiff := (hinv.rows e he).workspace hw
    refine ⟨hiff, fun hforeign j hj hid => ?_⟩
    obtain ⟨e', he', hid', hqueued, -⟩ := hinv.corresponds.job_event j hj
    have hsame : e' = e := (hinv.consistent webhookEvents).eq_of_key he' he (hid'.trans hid)
    rw [hsame, hiff.mp hforeign] at hqueued
    cases hqueued

/-- In every state that deliveries and the other services reach, whatever is sent, no event
is stored and no transfer is queued without an accepted signature, nor a transfer for another
workspace or with another amount than was credited. -/
theorem stored_authentic
    (hhash : Set.InjOn cfg.sha256
      { content | ∃ request, requests request ∧ request.content = content })
    (hempty : w.db = emptyDatabase) {c : Config ι Call Call.Answer Failure Exchange World}
    (h : Runs (endpoint cfg requests provider) (.initial w) c) :
    Authentic cfg requests c.state.db :=
  ((kept (ι := ι) hhash).inv (s := w) (hempty ▸ Inv.empty : Inv cfg requests w.db) h).authentic

/-- Events and jobs are never deleted and never change what they stand for; only an unknown
invoice may become known later. The transactions of the stores run one at a time: of two
overlapping deliveries of an event, the later one may still write over `queued`. -/
theorem stored_last
    (hhash : Set.InjOn cfg.sha256
      { content | ∃ request, requests request ∧ request.content = content })
    (hempty : w.db = emptyDatabase) {c d : Config ι Call Call.Answer Failure Exchange World}
    (h : Runs (endpoint cfg requests provider) (.initial w) c)
    (h' : Runs (endpoint cfg requests provider) c d) : Lasts c.state.db d.state.db :=
  runs_last hhash (hempty ▸ .empty) h h'

end

/-! ### Two deliveries at once -/

def rawCredit (eventId workspaceId : String) : RawEvent where
  id := .valid eventId
  subscription := .valid "invoice"
  workspaceId := .valid workspaceId
  log := some {
    type := .valid "credited"
    invoice := some {
      id := .valid "i", amount := .valid 5000, fee := .valid 50
      tags := .valid ["trial-smoke:d"] }
    transfer := none }

/-- One content is a credit of the own workspace, another one of a different workspace. -/
def sandbox : Endpoint where
  expectedWorkspaceId := some "w"
  maxContentLength := 1048576
  parse := fun content =>
    if content = "credit" then .ok (rawCredit "e" "w")
    else if content = "foreign" then .ok (rawCredit "f" "v")
    else .error .validationError
  sha256 := fun content => (String.fromUTF8? content).getD ""

def creditRequest : Request := ⟨"credit".toUTF8, some "signature", .ok ()⟩

def foreignRequest : Request := ⟨"foreign".toUTF8, some "signature", .ok ()⟩

def arriving (request : Request) : Prop := request = creditRequest ∨ request = foreignRequest

theorem arriving_injOn : Set.InjOn sandbox.sha256
    { content | ∃ request, arriving request ∧ request.content = content } := by
  have hcredit : sandbox.sha256 creditRequest.content = "credit" := by decide
  have hforeign : sandbox.sha256 foreignRequest.content = "foreign" := by decide
  rintro _ ⟨_, rfl | rfl, rfl⟩ _ ⟨_, rfl | rfl, rfl⟩ heq
  · rfl
  · rw [hcredit, hforeign] at heq
    exact absurd heq (by decide)
  · rw [hcredit, hforeign] at heq
    exact absurd heq (by decide)
  · rfl

instance (db : Database Row) : (op : StoreOp) → Decidable (DrawsFresh db op)
  | .events (.record jobId _) => inferInstanceAs (Decidable (∀ j ∈ db transferJobs, j.id ≠ jobId))
  | .events (.recordIgnoredWorkspace _) | .invoices _ | .trials _ | .transfers _ =>
      inferInstanceAs (Decidable True)

def answer (_ : Log Bool Call Call.Answer) (w : World) (_ : Bool) :
    (call : Call) → ℤ → Option (call.Answer × World)
  | .now, time => some (time, w)
  | .store op, _ =>
      if DrawsFresh w.db op then some ((op.apply w.db).1, { w with db := (op.apply w.db).2 })
      else none
  | _, _ => none

theorem answer_exec {provider : Provider} {l : Log Bool Call Call.Answer} {w : World} {i : Bool}
    {call : Call} {time : ℤ} {r : call.Answer × World} (h : answer l w i call time = some r) :
    (endpoint sandbox arriving provider).exec l w i call r.1 r.2 := by
  cases call with
  | now =>
      obtain rfl := Option.some.inj h
      exact ⟨⟨trivial, rfl⟩, fun op hop => by cases hop⟩
  | store op =>
      simp only [answer] at h
      split_ifs at h with hfresh
      obtain rfl := Option.some.inj h
      refine ⟨⟨rfl, rfl⟩, fun op' hop => ?_⟩
      obtain rfl := Call.store.inj hop
      exact hfresh
  | _ => cases h

def smokeDraft : InvoiceDraft where
  id := "d"
  batchId := "sandbox-smoke"
  ordinal := 0
  payerName := "p"
  payerTaxId := "t"
  amount := 5000
  tag := "trial-smoke:d"
  status := .pending
  attempts := 0
  createdAt := 0

/-- A transaction of another service. -/
def transact (op : StoreOp) (w : World) : World := { w with db := (op.apply w.db).2 }

/-- Both requests are served at once after a smoke invoice was registered. -/
def bothServed : List (Move Bool Call Call.Answer Failure Exchange World ℤ) :=
  [.drift (transact (.invoices (.registerSmoke smokeDraft 0))),
    .begin false (serve sandbox "j" creditRequest), .begin true (serve sandbox "k" foreignRequest),
    .call false 1, .call true 2, .call true 2, .call false 2]

/-- A worker claims the job. -/
def claimed : List (Move Bool Call Call.Answer Failure Exchange World ℤ) :=
  [.drift (transact (.transfers (.claim ⟨3, 123⟩)))]

theorem bothServed_allowed (provider : Provider) :
    ∀ m ∈ bothServed, m.Allowed (endpoint sandbox arriving provider) := by
  intro m hm
  simp only [bothServed, List.mem_cons, List.not_mem_nil, or_false] at hm
  rcases hm with rfl | rfl | rfl | rfl | rfl | rfl | rfl
  · exact fun _ _ => .inr ⟨_, by simp, rfl⟩
  · exact fun _ _ _ => ⟨"j", creditRequest, .inl rfl, rfl⟩
  · exact fun _ _ _ => ⟨"k", foreignRequest, .inr rfl, rfl⟩
  all_goals trivial

theorem claimed_allowed (provider : Provider) :
    ∀ m ∈ claimed, m.Allowed (endpoint sandbox arriving provider) := by
  intro m hm
  obtain rfl := List.mem_singleton.mp hm
  exact fun _ _ => .inr ⟨_, by simp, rfl⟩

def responseOf : Option (Service Exchange) → Option Response
  | some (.done x) => some x.response
  | _ => none

theorem done_of_response {q : Option (Service Exchange)} {response : Response}
    (h : responseOf q = some response) : ∃ x, q = some (.done x) ∧ x.response = response := by
  unfold responseOf at h
  split at h
  · exact ⟨_, rfl, Option.some.inj h⟩
  · cases h

/-- The world before anything happened. -/
def nothingYet : World := ⟨emptyDatabase, [], [], 0⟩

/-- The responses and the jobs after the deliveries, and the jobs after the claim. -/
structure Outcome where
  own : Option Response
  other : Option Response
  jobs : List (InvoiceId × ℤ)
  statuses : List TransferStatus
deriving DecidableEq

def outcome (c d : Config Bool Call Call.Answer Failure Exchange World) : Outcome where
  own := responseOf (c.procs false)
  other := responseOf (c.procs true)
  jobs := (c.state.db transferJobs).map fun j => (j.invoiceId, j.netAmount)
  statuses := (d.state.db transferJobs).map fun j => j.status

def expectedOutcome : Outcome where
  own := some ⟨200, .status "queued"⟩
  other := some ⟨200, .status "ignored_workspace"⟩
  jobs := [("i", 4950)]
  statuses := [.processing]

theorem served_runs (provider : Provider) : ∃ c d,
    Runs (endpoint sandbox arriving provider) (.initial nothingYet) c ∧
    Runs (endpoint sandbox arriving provider) c d ∧ outcome c d = expectedOutcome := by
  have hends : (playAll answer (.initial nothingYet) bothServed).bind (fun c =>
      (playAll answer c claimed).map (outcome c)) = some expectedOutcome := by decide
  obtain ⟨c, hplay, hc⟩ := Option.bind_eq_some_iff.mp hends
  obtain ⟨d, hplay', hd⟩ := Option.map_eq_some_iff.mp hc
  exact ⟨c, d, playAll_runs (fun _ _ _ _ _ _ => answer_exec) (bothServed_allowed provider) hplay,
    playAll_runs (fun _ _ _ _ _ _ => answer_exec) (claimed_allowed provider) hplay', hd⟩

/-- A provider that may do anything, since it is not asked. -/
def unasked : Provider where
  invoiceCreate := fun _ _ _ _ => True
  invoiceQuery := fun _ _ _ _ => True
  transferCreate := fun _ _ _ _ => True
  transferQuery := fun _ _ _ _ => True

theorem acknowledged_lasts_bothServed : ∃ (c d : Config Bool Call Call.Answer Failure Exchange World)
    (x y : Exchange), outcome c d = expectedOutcome ∧
      c.procs false = some (.done x) ∧ Promised sandbox arriving false x c.log d.state.db ∧
      c.procs true = some (.done y) ∧ Promised sandbox arriving true y c.log d.state.db := by
  obtain ⟨c, d, h, h', hends⟩ := served_runs unasked
  obtain ⟨x, hx, -⟩ := done_of_response (congrArg Outcome.own hends)
  obtain ⟨y, hy, -⟩ := done_of_response (congrArg Outcome.other hends)
  exact ⟨c, d, x, y, hends, hx, acknowledged_lasts arriving_injOn rfl h h' hx, hy,
    acknowledged_lasts arriving_injOn rfl h h' hy⟩

theorem stored_authentic_bothServed :
    ∃ c d : Config Bool Call Call.Answer Failure Exchange World,
      outcome c d = expectedOutcome ∧ Authentic sandbox arriving c.state.db := by
  obtain ⟨c, d, h, -, hends⟩ := served_runs unasked
  exact ⟨c, d, hends, stored_authentic arriving_injOn rfl h⟩

theorem stored_last_claimed : ∃ c d : Config Bool Call Call.Answer Failure Exchange World,
    outcome c d = expectedOutcome ∧ Lasts c.state.db d.state.db := by
  obtain ⟨c, d, h, h', hends⟩ := served_runs unasked
  exact ⟨c, d, hends, stored_last arriving_injOn rfl h h'⟩

end StarkbankTrial.AcknowledgedDeliveries
