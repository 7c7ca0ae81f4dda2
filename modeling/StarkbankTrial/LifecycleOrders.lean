import StarkbankTrial.LatestRegisters
import StarkbankTrial.LifecycleStatus
import StarkbankTrial.RedeliveredEvents

/-!
# Lifecycle events in any order

Deliveries of the lifecycle events of one transfer, each one or more times. The four report
columns of its job are a register that keeps the latest write: a new event is applied exactly
when it is later than what is stored, and a repeated event is never later than itself.
-/
namespace StarkbankTrial.LifecycleOrders
open Domain InteractivePrograms RelationalTables Transaction DatabaseSchema
open DatabaseSchema.Table
open EventRecording StoreOperations JobChanges InvoiceChanges LifecycleStatus RedeliveredEvents
open LatestRegisters
open Program hiding atomically

/-! ### The report of a job -/

structure Report where
  transferId : Option TransferId
  status : Option String
  logType : Option String
deriving DecidableEq

def reported (j : TransferJobRow) : Register ℤ Report :=
  ⟨j.providerStatusUpdatedAt, ⟨j.providerTransferId, j.providerStatus, j.providerLogType⟩⟩

/-- What an event writes. -/
def reportOf (event : TransferLifecycleEvent) : ℤ × Report :=
  (event.updatedAt.instant, ⟨some event.transferId, some event.status, some event.logType⟩)

/-- The job with other report columns, and another time of its last update. -/
def withReport (r : Register ℤ Report) (updatedAt : ℤ) (j : TransferJobRow) : TransferJobRow :=
  { j with
    providerTransferId := r.value.transferId
    providerStatus := r.value.status
    providerLogType := r.value.logType
    providerStatusUpdatedAt := r.time
    updatedAt := updatedAt }

@[simp] theorem withReport_externalId (r : Register ℤ Report) (updatedAt : ℤ)
    (j : TransferJobRow) : (withReport r updatedAt j).externalId = j.externalId := rfl

@[simp] theorem reported_withReport (r : Register ℤ Report) (updatedAt : ℤ)
    (j : TransferJobRow) : reported (withReport r updatedAt j) = r := rfl

@[simp] theorem withReport_withReport (r r' : Register ℤ Report) (t t' : ℤ)
    (j : TransferJobRow) : withReport r t (withReport r' t' j) = withReport r t j := rfl

/-! ### One delivery -/

section
variable {db : Database Row} {r : EventRecord} {event : TransferLifecycleEvent}
  {j row : TransferJobRow} {jobId : TransferJobId}

theorem lifecycleOutcome_job (j : TransferJobRow) (event : TransferLifecycleEvent) :
    lifecycleOutcome (some j) event =
      if (reported j).Before (reportOf event).1 then .transferUpdated else .transferStale := by
  cases ht : j.providerStatusUpdatedAt with
  | none => simp [lifecycleOutcome, ht, reported, Register.Before]
  | some t =>
      simp only [lifecycleOutcome, ht, reported, Register.Before, reportOf, Option.mem_def,
        Option.some.injEq, forall_eq']
      split_ifs with h h' h'
      · omega
      · rfl
      · rfl
      · omega

/-- The job of an external id is the only one that the statements of a delivery select. -/
theorem job_selected (hc : metadata.Consistent db) (hj : j ∈ db transferJobs)
    (hext : j.externalId = event.externalId) :
    (db transferJobs).filter (fun k : TransferJobRow => k.externalId == event.externalId) =
      [j] := by
  refine (hc transferJobs).filter_eq_singleton (fun a b ha hb => ?_) hj (beq_iff_eq.mpr hext)
  simp [metadata, uniqueConflict, beq_iff_eq.mp ha, beq_iff_eq.mp hb]

theorem record_repeated {e : WebhookEventRow} (he : e ∈ db webhookEvents)
    (hid : e.id = event.eventId) (hevent : r.event = .lifecycle event) :
    ((StoreOp.events (.record jobId r)).apply db).2 = db := by
  have hrun : (EventRecording.record jobId r).run (respond metadata) db =
      (.ok .duplicateEvent, db) := by
    rw [record_stored he (hid.trans (by rw [hevent]; rfl))]
    simp only [recoverDuplicate, hevent]
    rfl
  exact congrArg Prod.snd (atomically_of_run hrun)

/-- A new event is stored with the outcome that the job's register gives it. -/
theorem record_new (hc : metadata.Consistent db) (hj : j ∈ db transferJobs)
    (hext : j.externalId = event.externalId) (hevent : r.event = .lifecycle event)
    (hnew : ∀ e ∈ db webhookEvents, e.id ≠ event.eventId)
    (hvalid : metadata.Valid transferJobs (assignWhere
      (fun k : TransferJobRow => k.externalId == event.externalId) (applyLifecycle r event)
      (db transferJobs))) :
    ((StoreOp.events (.record jobId r)).apply db).2 =
      if (reported j).Before (reportOf event).1 then
        (db.set webhookEvents (db webhookEvents ++ [eventRow r .transferUpdated])).set
          transferJobs (assignWhere
            (fun k : TransferJobRow => k.externalId == event.externalId)
            (applyLifecycle r event) (db transferJobs))
      else db.set webhookEvents (db webhookEvents ++ [eventRow r .transferStale]) := by
  have hrecord : EventRecording.record jobId r = recordTransferEvent r event := by
    simp only [EventRecording.record, hevent]
  have hid : ∀ e ∈ db webhookEvents, e.id ≠ r.event.eventId := by
    rw [hevent]
    exact hnew
  change (atomically metadata (EventRecording.record jobId r) db).2 = _
  rw [hrecord]
  split_ifs with hbefore
  · refine congrArg Prod.snd (atomically_of_run (a := .transferUpdated) ?_)
    simp only [recordTransferEvent, select_bind, run_call, respond_select,
      job_selected hc hj hext, List.head?_cons, lifecycleOutcome_job, if_pos hbefore]
    rw [insertEvent_new hid]
    simp only [updateMatched, if_true]
    exact run_updateRows hvalid
  · refine congrArg Prod.snd (atomically_of_run (a := .transferStale) ?_)
    simp only [recordTransferEvent, select_bind, run_call, respond_select,
      job_selected hc hj hext, List.head?_cons, lifecycleOutcome_job, if_neg hbefore]
    rw [insertEvent_new hid]
    rfl

end

/-! ### A sequence of deliveries -/

/-- Events of one transfer that are yet to be delivered. The provider uses one transfer id
for one external id, so no other job carries the id that the events name. -/
structure Awaited (db : Database Row) (job : TransferJobRow)
    (events : List TransferLifecycleEvent) : Prop where
  consistent : metadata.Consistent db
  row : job ∈ db transferJobs
  externalId : ∀ event ∈ events, event.externalId = job.externalId
  unstored : ∀ event ∈ events, ∀ e ∈ db webhookEvents, e.id ≠ event.eventId
  ids : (events.map TransferLifecycleEvent.eventId).Nodup
  instants : (events.map fun event => event.updatedAt.instant).Nodup
  transferId : ∀ event ∈ events, ∀ j ∈ db transferJobs,
    j.providerTransferId = some event.transferId → j.externalId = job.externalId

structure Delivery where
  jobId : TransferJobId
  record : EventRecord

def deliver (db : Database Row) (deliveries : List Delivery) : Database Row :=
  applyAll (deliveries.map fun d => .events (.record d.jobId d.record)) db

/-- Every delivery is of one of the events, and every event is delivered. -/
structure Delivers (events : List TransferLifecycleEvent) (deliveries : List Delivery) :
    Prop where
  only : ∀ d ∈ deliveries, ∃ event ∈ events, d.record.event = .lifecycle event
  all : ∀ event ∈ events, ∃ d ∈ deliveries, d.record.event = .lifecycle event

/-- The register of the job after some events. -/
def registerAfter (job : TransferJobRow) (done : List TransferLifecycleEvent) :
    Register ℤ Report := writeAll (reported job) (done.map reportOf)

/-- The database after some of the events: they are stored, and only the report of the job
and the time of its last update are new. -/
structure After (db₀ : Database Row) (job : TransferJobRow)
    (events done : List TransferLifecycleEvent) (db : Database Row) : Prop where
  consistent : metadata.Consistent db
  stored : ∀ event ∈ events, (∃ e ∈ db webhookEvents, e.id = event.eventId) ↔ event ∈ done
  jobs : ∃ updatedAt, db transferJobs =
    assignWhere (fun j : TransferJobRow => j.externalId == job.externalId)
      (withReport (registerAfter job done) updatedAt) (db₀ transferJobs)

section
variable {db₀ db : Database Row} {job : TransferJobRow}
  {events done : List TransferLifecycleEvent} {event : TransferLifecycleEvent}

theorem Awaited.start (h : Awaited db₀ job events) : After db₀ job events [] db₀ where
  consistent := h.consistent
  stored event hevent := by
    simpa using h.unstored event hevent
  jobs := by
    refine ⟨job.updatedAt, ?_⟩
    have hsame : ∀ j ∈ db₀ transferJobs, (if (j.externalId == job.externalId) = true then
        withReport (registerAfter job []) job.updatedAt j else j) = j := by
      intro j hj
      split_ifs with hext
      · obtain rfl : j = job := (h.consistent transferJobs).eq_of_clash hj h.row
          (by simp [metadata, uniqueConflict, beq_iff_eq.mp hext])
        rfl
      · rfl
    exact ((List.map_congr_left hsame).trans (List.map_id _)).symm

theorem After.present (hafter : After db₀ job events done db) (h : Awaited db₀ job events) :
    ∃ j ∈ db transferJobs, j.externalId = job.externalId ∧
      reported j = registerAfter job done := by
  obtain ⟨updatedAt, hjobs⟩ := hafter.jobs
  refine ⟨withReport (registerAfter job done) updatedAt job, ?_, rfl, rfl⟩
  rw [hjobs]
  exact mem_assignWhere.mpr (.inl ⟨job, h.row, beq_self_eq_true _, rfl⟩)

/-- No other job stands in the way of the transfer id that an event brings. -/
theorem After.valid (hafter : After db₀ job events done db) (h : Awaited db₀ job events)
    (hevent : event ∈ events) (r : EventRecord) :
    metadata.Valid transferJobs (assignWhere
      (fun k : TransferJobRow => k.externalId == event.externalId) (applyLifecycle r event)
      (db transferJobs)) := by
  refine (hafter.consistent transferJobs).assignWhere
    (fun j hj _ => (hafter.consistent transferJobs).1 j hj) ?_ ?_
  · intro a ha b hb hexta hclash hextb
    have hfree : b.providerTransferId ≠ some event.transferId := by
      intro htransfer
      obtain ⟨updatedAt, hjobs⟩ := hafter.jobs
      rw [hjobs] at hb
      rw [h.externalId event hevent] at hextb
      rcases mem_assignWhere.mp hb with ⟨j, -, hext, rfl⟩ | ⟨hb₀, -⟩
      · simp [beq_iff_eq.mp hext] at hextb
      · have hext := h.transferId event hevent b hb₀ htransfer
        simp [hext] at hextb
    have hsame : sameNonNull (some event.transferId) b.providerTransferId = false := by
      rw [Bool.eq_false_iff, ne_eq, sameNonNull_iff]
      rintro ⟨x, hx, hb'⟩
      exact hfree (hb'.trans hx.symm)
    simp only [metadata, uniqueConflict, applyLifecycle, Bool.or_eq_false_iff] at hclash ⊢
    exact ⟨hclash.1, hsame⟩
  · intro a _ b _ hexta hextb hclash
    have hext := (beq_iff_eq.mp hexta).trans (beq_iff_eq.mp hextb).symm
    simp [metadata, uniqueConflict, hext] at hclash

theorem registerAfter_before (h : (registerAfter job done).Before (reportOf event).1) :
    registerAfter job (done ++ [event]) = ⟨some (reportOf event).1, (reportOf event).2⟩ := by
  rw [registerAfter, List.map_append, List.map_singleton, writeAll_append]
  exact write_of_before h

theorem registerAfter_not_before (h : ¬ (registerAfter job done).Before (reportOf event).1) :
    registerAfter job (done ++ [event]) = registerAfter job done := by
  rw [registerAfter, List.map_append, List.map_singleton, writeAll_append]
  exact write_of_not_before h

/-- An event row more stands for the delivered event and for no other. -/
theorem After.stored_append (hafter : After db₀ job events done db) (h : Awaited db₀ job events)
    (hevent : event ∈ events) {row : WebhookEventRow} (hid : row.id = event.eventId) :
    ∀ event' ∈ events, (∃ e ∈ db webhookEvents ++ [row], e.id = event'.eventId) ↔
      event' ∈ done ++ [event] := by
  intro event' hevent'
  rw [List.mem_append, List.mem_singleton, ← hafter.stored event' hevent']
  constructor
  · rintro ⟨e, he, hid'⟩
    rcases List.mem_append.mp he with hold | hnew
    · exact .inl ⟨e, hold, hid'⟩
    · rw [List.mem_singleton.mp hnew, hid] at hid'
      exact .inr (List.inj_on_of_nodup_map h.ids hevent hevent' hid').symm
  · rintro (⟨e, he, hid'⟩ | rfl)
    · exact ⟨e, List.mem_append_left _ he, hid'⟩
    · exact ⟨row, by simp, hid⟩

theorem After.repeated (hafter : After db₀ job events done db) (hevent : event ∈ events)
    (hdone : event ∈ done) {r : EventRecord} (hr : r.event = .lifecycle event)
    (jobId : TransferJobId) : After db₀ job events (done ++ [event])
      ((StoreOp.events (.record jobId r)).apply db).2 := by
  obtain ⟨e, he, hid⟩ := (hafter.stored event hevent).mpr hdone
  have hsame : registerAfter job (done ++ [event]) = registerAfter job done :=
    registerAfter_not_before
      ((writeAll_latest _ _).not_before (List.mem_map_of_mem (f := reportOf) hdone))
  rw [record_repeated he hid hr]
  refine ⟨hafter.consistent, fun event' hevent' => ?_, hsame.symm ▸ hafter.jobs⟩
  rw [hafter.stored event' hevent', List.mem_append, List.mem_singleton]
  exact ⟨.inl, fun hmem => hmem.elim id fun heq => heq ▸ hdone⟩

theorem After.first (hafter : After db₀ job events done db) (h : Awaited db₀ job events)
    (hevent : event ∈ events) (hdone : event ∉ done) {r : EventRecord}
    (hr : r.event = .lifecycle event) (jobId : TransferJobId) :
    After db₀ job events (done ++ [event])
      ((StoreOp.events (.record jobId r)).apply db).2 := by
  obtain ⟨j, hj, hext, hregister⟩ := hafter.present h
  have hnew : ∀ e ∈ db webhookEvents, e.id ≠ event.eventId := fun e he hid =>
    hdone ((hafter.stored event hevent).mp ⟨e, he, hid⟩)
  have hid : ∀ outcome, (eventRow r outcome).id = event.eventId := fun _ => by
    simp only [eventRow, hr]
    rfl
  have happly : ((StoreOp.events (.record jobId r)).apply db).2 = _ := record_new hafter.consistent hj
    (hext.trans (h.externalId event hevent).symm) hr hnew (hafter.valid h hevent r)
  rw [hregister] at happly
  refine ⟨StoreOp.apply_consistent hafter.consistent _, ?_, ?_⟩
  · rw [happly]
    split_ifs
    · rw [Database.set_of_ne _ (by decide), Database.set_self]
      exact hafter.stored_append h hevent (hid _)
    · rw [Database.set_self]
      exact hafter.stored_append h hevent (hid _)
  · obtain ⟨updatedAt, hjobs⟩ := hafter.jobs
    rw [happly]
    split_ifs with hbefore
    · refine ⟨r.receivedAt, ?_⟩
      rw [Database.set_self, hjobs, registerAfter_before hbefore, h.externalId event hevent]
      exact assignWhere_assignWhere fun _ => rfl
    · refine ⟨updatedAt, ?_⟩
      rw [Database.set_of_ne _ (by decide), hjobs, registerAfter_not_before hbefore]

/-- The register of the job takes the events in the order in which they are delivered. -/
theorem After.deliver (hafter : After db₀ job events done db) (h : Awaited db₀ job events)
    {deliveries : List Delivery}
    (hdeliveries : ∀ d ∈ deliveries, ∃ event ∈ events, d.record.event = .lifecycle event) :
    ∃ later, After db₀ job events (done ++ later) (deliver db deliveries) ∧
      ∀ event, event ∈ later ↔ ∃ d ∈ deliveries, d.record.event = .lifecycle event := by
  induction deliveries generalizing db done with
  | nil =>
      refine ⟨[], ?_, by simp⟩
      rw [List.append_nil]
      exact hafter
  | cons d deliveries ih =>
      obtain ⟨event, hevent, hr⟩ := hdeliveries d List.mem_cons_self
      have hstep : After db₀ job events (done ++ [event])
          ((StoreOp.events (.record d.jobId d.record)).apply db).2 := by
        by_cases hdone : event ∈ done
        · exact hafter.repeated hevent hdone hr d.jobId
        · exact hafter.first h hevent hdone hr d.jobId
      obtain ⟨later, hlater, hmem⟩ := ih hstep fun d' hd' =>
        hdeliveries d' (List.mem_cons_of_mem d hd')
      refine ⟨event :: later, ?_, fun event' => ?_⟩
      · rwa [List.append_assoc, List.singleton_append] at hlater
      · rw [List.mem_cons, hmem, List.exists_mem_cons_iff, hr, VerifiedEvent.lifecycle.injEq,
          eq_comm]

/-! ### The outcome of all deliveries -/

/-- The report is that of the latest event, when it is later than what was stored, and the
original one otherwise. -/
def FinalReport (events : List TransferLifecycleEvent) (job j : TransferJobRow) : Prop :=
  (∃ event ∈ events,
    (∀ event' ∈ events, event'.updatedAt.instant ≤ event.updatedAt.instant) ∧
    (∀ t, job.providerStatusUpdatedAt = some t → t < event.updatedAt.instant) ∧
    j.providerTransferId = some event.transferId ∧ j.providerStatus = some event.status ∧
    j.providerLogType = some event.logType ∧
    j.providerStatusUpdatedAt = some event.updatedAt.instant) ∨
  ((∀ event ∈ events, ∃ t, job.providerStatusUpdatedAt = some t ∧
    event.updatedAt.instant ≤ t) ∧ SameReport job j)

/-- All other columns but the time of the last update are as they were. -/
def OnlyReported (job j : TransferJobRow) : Prop :=
  j = { job with
    providerTransferId := j.providerTransferId
    providerStatus := j.providerStatus
    providerLogType := j.providerLogType
    providerStatusUpdatedAt := j.providerStatusUpdatedAt
    updatedAt := j.updatedAt }

theorem finalReport_of_latest {r : Register ℤ Report} {updatedAt : ℤ}
    (h : Latest (reported job) (events.map reportOf) r) :
    FinalReport events job (withReport r updatedAt job) := by
  cases h with
  | kept hkept =>
      refine .inr ⟨fun event hevent => ?_, rfl, rfl, rfl, rfl⟩
      exact not_before_iff.mp (hkept _ (List.mem_map_of_mem hevent))
  | written hw hbefore hmax =>
      obtain ⟨event, hevent, rfl⟩ := List.mem_map.mp hw
      exact .inl ⟨event, hevent, fun event' hevent' => hmax _ (List.mem_map_of_mem hevent'),
        hbefore, rfl, rfl, rfl, rfl⟩

/-- Deliveries in some order leave the latest report, and everything else as it was. -/
theorem Awaited.delivered (h : Awaited db job events) {deliveries : List Delivery}
    (hd : Delivers events deliveries) :
    ∃ updatedAt, deliver db deliveries transferJobs = (db transferJobs).map fun j =>
      if j.id = job.id then withReport (registerAfter job events) updatedAt job else j := by
  obtain ⟨later, hlater, hmem⟩ := h.start.deliver h hd.only
  rw [List.nil_append] at hlater
  have hsame : ∀ event, event ∈ later ↔ event ∈ events := by
    intro event
    rw [hmem]
    constructor
    · rintro ⟨d, hdel, hr⟩
      obtain ⟨event', hevent', hr'⟩ := hd.only d hdel
      have heq := hr.symm.trans hr'
      exact (VerifiedEvent.lifecycle.inj heq).symm ▸ hevent'
    · exact hd.all event
  have hregister : registerAfter job later = registerAfter job events := by
    refine writeAll_congr (fun w => by simp only [List.mem_map, hsame]) ?_
    intro w hw w' hw' htime
    obtain ⟨event, hevent, rfl⟩ := List.mem_map.mp hw
    obtain ⟨event', hevent', rfl⟩ := List.mem_map.mp hw'
    exact congrArg reportOf (List.inj_on_of_nodup_map h.instants ((hsame event).mp hevent)
      ((hsame event').mp hevent') htime)
  obtain ⟨updatedAt, hjobs⟩ := hlater.jobs
  refine ⟨updatedAt, ?_⟩
  rw [hjobs, hregister]
  refine List.map_congr_left fun j hj => ?_
  by_cases hid : j.id = job.id
  · obtain rfl : j = job := (h.consistent transferJobs).eq_of_key hj h.row hid
    simp
  · have hext : j.externalId ≠ job.externalId := fun hext =>
      hid (congrArg TransferJobRow.id ((h.consistent transferJobs).eq_of_clash hj h.row
        (by simp [metadata, uniqueConflict, hext])))
    simp [hid, hext]

/-- Any two orders of delivery leave the same report, that of the latest event, and
nothing else of the job or of any other job is changed. -/
theorem orders_agree {deliveries deliveries' : List Delivery} (h : Awaited db job events)
    (hd : Delivers events deliveries) (hd' : Delivers events deliveries') :
    ∃ j j', SameReport j j' ∧ FinalReport events job j ∧
      OnlyReported job j ∧ OnlyReported job j' ∧
      deliver db deliveries transferJobs =
        (db transferJobs).map (fun k => if k.id = job.id then j else k) ∧
      deliver db deliveries' transferJobs =
        (db transferJobs).map (fun k => if k.id = job.id then j' else k) := by
  obtain ⟨updatedAt, hjobs⟩ := h.delivered hd
  obtain ⟨updatedAt', hjobs'⟩ := h.delivered hd'
  exact ⟨withReport (registerAfter job events) updatedAt job,
    withReport (registerAfter job events) updatedAt' job, ⟨rfl, rfl, rfl, rfl⟩,
    finalReport_of_latest (writeAll_latest _ _), rfl, rfl, hjobs, hjobs'⟩

end

/-! ### Two events in two orders -/

def queuedEvent : CreditedInvoiceEvent where
  eventId := "credit"
  invoiceId := "i"
  amount := 100
  fee := 1
  workspaceId := "w"

def queuedJob : TransferJobRow := newJob "job" queuedEvent 99 0

def queuedDatabase : Database Row
  | .webhookEvents => [eventRow (receivedRecord (.credited queuedEvent) "hash" 0) .queued]
  | .transferJobs => [queuedJob]
  | _ => []

def createdEvent : TransferLifecycleEvent where
  eventId := "created"
  transferId := "t"
  externalId := queuedJob.externalId
  status := "created"
  logType := "created"
  updatedAt := { wall := 20, utcoffset := none }
  workspaceId := "w"

def successEvent : TransferLifecycleEvent where
  eventId := "success"
  transferId := "t"
  externalId := queuedJob.externalId
  status := "success"
  logType := "success"
  updatedAt := { wall := 40, utcoffset := some 10 }
  workspaceId := "w"

def delivery (event : TransferLifecycleEvent) (receivedAt : ℤ) : Delivery :=
  ⟨"unused", receivedRecord (.lifecycle event) "hash" receivedAt⟩

def inOrder : List Delivery :=
  [delivery createdEvent 50, delivery createdEvent 51, delivery successEvent 52]

def outOfOrder : List Delivery := [delivery successEvent 50, delivery createdEvent 60]

theorem orders_agree_twice :
    ∃ j j', SameReport j j' ∧ FinalReport [createdEvent, successEvent] queuedJob j ∧
      OnlyReported queuedJob j ∧ OnlyReported queuedJob j' ∧
      deliver queuedDatabase inOrder transferJobs =
        (queuedDatabase transferJobs).map (fun k => if k.id = queuedJob.id then j else k) ∧
      deliver queuedDatabase outOfOrder transferJobs =
        (queuedDatabase transferJobs).map (fun k => if k.id = queuedJob.id then j' else k) :=
  orders_agree
    { consistent := by decide
      row := by decide
      externalId := by decide
      unstored := by decide
      ids := by decide
      instants := by decide
      transferId := by decide }
    { only := by simp [inOrder, delivery, receivedRecord]
      all := by simp [inOrder, delivery, receivedRecord] }
    { only := by simp [outOfOrder, delivery, receivedRecord]
      all := by simp [outOfOrder, delivery, receivedRecord] }

end StarkbankTrial.LifecycleOrders
