import StarkbankTrial.JobLeases

/-!
# What is recorded of the status of a transfer

Lifecycle events carry the provider's own instants, and an event is applied only when it is
later than what is stored. The other writers of the same columns do not compare: a finish
writes all four, mostly nulls, and a refresh writes the time of its own clock for an answer
that the provider gave before. What a transfer is told to be is kept beside the database, each
piece with the instant that it is of. Transactions run one at a time here: two events that
overlap may both find the old time stored, and then the earlier one may write last.
-/
namespace StarkbankTrial.LifecycleStatus
open Domain InteractivePrograms RelationalTables Transaction DatabaseSchema
open DatabaseSchema.Table
open EventRecording TransferClaims StoreOperations JobChanges JobLeases Services ScriptedRuns
open Program hiding atomically

/-! ### Information on a transfer -/

/-- What was said of a transfer, the instant that it is of, and the time that is stored for it.
Only events have a log type. -/
structure Information where
  instant : ℤ
  transferId : TransferId
  status : String
  logType : Option String
  recordedAt : ℤ
deriving Repr, DecidableEq

def eventInformation (event : TransferLifecycleEvent) : Information where
  instant := event.updatedAt.instant
  transferId := event.transferId
  status := event.status
  logType := some event.logType
  recordedAt := event.updatedAt.instant

/-- The provider's answer as of an instant, which a refresh stores with the time of its clock. -/
def refreshInformation (asOf : ℤ) (transfer : ProviderTransfer) (now : ℤ) : Information where
  instant := asOf
  transferId := transfer.id
  status := transfer.status
  logType := none
  recordedAt := now

/-- Newer than all of these. -/
def Information.NewerThan (i : Information) (received : List Information) : Prop :=
  ∀ i' ∈ received, i'.instant < i.instant

theorem Information.NewerThan.of_subset {i : Information} {received received' : List Information}
    (h : i.NewerThan received') (hsub : received ⊆ received') : i.NewerThan received :=
  fun i' hi' => h i' (hsub hi')

/-- An operation, with the instant at which the provider gave the answer that it writes. Only
a refresh has one; an event carries its own. -/
structure TimedOp where
  op : StoreOp
  asOf : ℤ

/-- A stale event is received too, but changes nothing. -/
def eventTells (externalId : ExternalId) (event : VerifiedEvent)
    (answer : Except StoreError EventWriteResult) : List Information :=
  match event with
  | .lifecycle event =>
      if event.externalId = externalId ∧
          (answer = .ok .transferUpdated ∨ answer = .ok .transferStale) then
        [eventInformation event]
      else []
  | _ => []

/-- What the operation records about the transfer of an external id. -/
def told (externalId : ExternalId) (o : TimedOp) (db : Database Row) : List Information :=
  match o.op with
  | .events (.record jobId r) =>
      eventTells externalId r.event ((StoreOp.events (.record jobId r)).apply db).1
  | .transfers (.refreshProviderStatus jobId transfer now) =>
      if ((StoreOp.transfers (.refreshProviderStatus jobId transfer now)).apply db).1.isOk &&
          (db transferJobs).any fun j : TransferJobRow =>
            j.id == jobId && j.externalId == externalId then
        [refreshInformation o.asOf transfer now]
      else []
  | _ => []

/-- A database, and what was recorded about one transfer until then. -/
structure Reception where
  db : Database Row
  received : List Information

def Reception.step (externalId : ExternalId) (s : Reception) (o : TimedOp) : Reception where
  db := (o.op.apply s.db).2
  received := s.received ++ told externalId o s.db

def Reception.steps (externalId : ExternalId) (s : Reception) (ops : List TimedOp) : Reception :=
  ops.foldl (Reception.step externalId) s

/-- The columns of the job say this. Without a log type the one that is there stays. -/
structure Shows (i : Information) (j : TransferJobRow) : Prop where
  transferId : j.providerTransferId = some i.transferId
  status : j.providerStatus = some i.status
  updatedAt : j.providerStatusUpdatedAt = some i.recordedAt
  logType : i.logType.isSome = true → j.providerLogType = i.logType

/-- The job is there, its columns say the latest that was received, and its log type is that of
an event that was received. -/
structure Reported (externalId : ExternalId) (s : Reception) (j : TransferJobRow) : Prop where
  row : j ∈ s.db transferJobs
  job : j.externalId = externalId
  latest : ∃ i ∈ s.received, Shows i j ∧ ∀ i' ∈ s.received, i'.instant ≤ i.instant
  logType : ∃ i ∈ s.received, i.logType.isSome = true ∧ j.providerLogType = i.logType

/-- The columns that a report consists of are equal. -/
structure SameReport (j j' : TransferJobRow) : Prop where
  transferId : j'.providerTransferId = j.providerTransferId
  status : j'.providerStatus = j.providerStatus
  logType : j'.providerLogType = j.providerLogType
  updatedAt : j'.providerStatusUpdatedAt = j.providerStatusUpdatedAt

/-- The log type is as it was, or that of an event newer than these. -/
def LogTypeReplaced (received received' : List Information) (j j' : TransferJobRow) : Prop :=
  j'.providerLogType = j.providerLogType ∨ ∃ i ∈ received', i.NewerThan received ∧
    i.logType.isSome = true ∧ j'.providerLogType = i.logType

/-- One job at two times: the report is as it was, or of newer information than any received
at the first time, and the recorded instant has not decreased. -/
structure Later (s s' : Reception) (j j' : TransferJobRow) : Prop where
  id : j'.id = j.id
  received : s.received ⊆ s'.received
  instant : ∀ t t', j.providerStatusUpdatedAt = some t → j'.providerStatusUpdatedAt = some t' →
    t ≤ t'
  report : SameReport j j' ∨
    (∃ i ∈ s'.received, Shows i j' ∧ i.NewerThan s.received) ∧
      LogTypeReplaced s.received s'.received j j'

theorem SameReport.refl (j : TransferJobRow) : SameReport j j := ⟨rfl, rfl, rfl, rfl⟩

theorem SameReport.trans {j j' j'' : TransferJobRow} (h : SameReport j j')
    (h' : SameReport j' j'') : SameReport j j'' :=
  ⟨h'.transferId.trans h.transferId, h'.status.trans h.status, h'.logType.trans h.logType,
    h'.updatedAt.trans h.updatedAt⟩

theorem Shows.same {i : Information} {j j' : TransferJobRow} (h : Shows i j)
    (hsame : SameReport j j') : Shows i j' :=
  ⟨hsame.transferId.trans h.transferId, hsame.status.trans h.status,
    hsame.updatedAt.trans h.updatedAt, fun hsome => hsame.logType.trans (h.logType hsome)⟩

theorem Reported.updatedAt {externalId : ExternalId} {s : Reception} {j : TransferJobRow}
    (h : Reported externalId s j) : j.providerStatusUpdatedAt.isSome = true := by
  obtain ⟨i, -, hshows, -⟩ := h.latest
  rw [hshows.updatedAt]
  rfl

/-- From one job to the next, what is new for the second is new for the first. -/
theorem LogTypeReplaced.trans {received received' received'' : List Information}
    {j j' j'' : TransferJobRow} (h : LogTypeReplaced received received' j j')
    (h' : LogTypeReplaced received' received'' j' j'') (hsub : received ⊆ received')
    (hsub' : received' ⊆ received'') : LogTypeReplaced received received'' j j'' := by
  rcases h' with hsame' | ⟨i, hi, hnewer, hrest⟩
  · rcases h with hsame | ⟨i, hi, hnewer, hsome, hlogType⟩
    · exact .inl (hsame'.trans hsame)
    · exact .inr ⟨i, hsub' hi, hnewer, hsome, hsame'.trans hlogType⟩
  · exact .inr ⟨i, hi, hnewer.of_subset hsub, hrest⟩

theorem Later.refl (s : Reception) (j : TransferJobRow) : Later s s j j where
  id := rfl
  received := List.Subset.refl _
  instant t t' h h' := by
    rw [h] at h'
    exact le_of_eq (Option.some.inj h')
  report := .inl (.refl j)

theorem Later.logType {s s' : Reception} {j j' : TransferJobRow} (h : Later s s' j j') :
    LogTypeReplaced s.received s'.received j j' := by
  rcases h.report with hsame | ⟨-, hreplaced⟩
  · exact .inl hsame.logType
  · exact hreplaced

theorem Later.trans {s s' s'' : Reception} {j j' j'' : TransferJobRow} (h : Later s s' j j')
    (h' : Later s' s'' j' j'') (hset : j'.providerStatusUpdatedAt.isSome = true) :
    Later s s'' j j'' where
  id := h'.id.trans h.id
  received := List.Subset.trans h.received h'.received
  instant t t'' ht ht'' := by
    obtain ⟨t', ht'⟩ := Option.isSome_iff_exists.mp hset
    exact le_trans (h.instant t t' ht ht') (h'.instant t' t'' ht' ht'')
  report := by
    have hlogType := h.logType.trans h'.logType h.received h'.received
    rcases h'.report with hsame' | ⟨⟨i, hi, hshows, hnewer⟩, -⟩
    · rcases h.report with hsame | ⟨⟨i, hi, hshows, hnewer⟩, -⟩
      · exact .inl (hsame.trans hsame')
      · exact .inr ⟨⟨i, h'.received hi, hshows.same hsame', hnewer⟩, hlogType⟩
    · exact .inr ⟨⟨i, hi, hshows, hnewer.of_subset h.received⟩, hlogType⟩

/-! ### The condition on the writers that do not compare -/

/-- No finish meets the job. A refresh of the job passes an answer newer than what was
received, at a time not before the recorded one. For a new event, being later than the
recorded time and being newer than what was received are the same. -/
def Respects (externalId : ExternalId) (s : Reception) (o : TimedOp) : Prop :=
  match o.op with
  | .events (.record _ r) => ∀ event, r.event = .lifecycle event →
      event.externalId = externalId → (∀ e ∈ s.db webhookEvents, e.id ≠ event.eventId) →
      ∀ j ∈ s.db transferJobs, j.externalId = externalId → ∀ t,
        j.providerStatusUpdatedAt = some t →
          (t < event.updatedAt.instant ↔ (eventInformation event).NewerThan s.received)
  | .transfers (.refreshProviderStatus jobId _ now) => ∀ j ∈ s.db transferJobs, j.id = jobId →
      j.externalId = externalId → (∀ i ∈ s.received, i.instant < o.asOf) ∧
        ∀ t, j.providerStatusUpdatedAt = some t → t ≤ now
  | .transfers op => ∀ job f, finishOf op = some (job, f) → ∀ j ∈ s.db transferJobs,
      heldBy job j = true → j.externalId ≠ externalId
  | _ => True

/-- Every operation of a sequence meets the condition when its turn comes. -/
def RespectsAll (externalId : ExternalId) : Reception → List TimedOp → Prop
  | _, [] => True
  | s, o :: ops => Respects externalId s o ∧ RespectsAll externalId (s.step externalId o) ops

variable {externalId : ExternalId} {s : Reception} {j : TransferJobRow}

theorem respectsAll_append {ops ops' : List TimedOp}
    (h : RespectsAll externalId s (ops ++ ops')) :
    RespectsAll externalId s ops ∧ RespectsAll externalId (s.steps externalId ops) ops' := by
  induction ops generalizing s with
  | nil => exact ⟨trivial, h⟩
  | cons o ops ih =>
      obtain ⟨ho, hrest⟩ := h
      obtain ⟨hops, hops'⟩ := ih hrest
      exact ⟨⟨ho, hops⟩, hops'⟩

/-! ### One operation -/

/-- The job is reported still, and later. -/
def StaysReported (externalId : ExternalId) (s s' : Reception) (j : TransferJobRow) : Prop :=
  ∃ j', Reported externalId s' j' ∧ Later s s' j j'

/-- A step that leaves the row of the job alone and tells nothing newer. -/
theorem Reported.kept (h : Reported externalId s j) {s' : Reception}
    (tells : List Information)
    (hrow : ∃ j' ∈ s'.db transferJobs, j'.id = j.id ∧ j'.externalId = j.externalId ∧
      SameReport j j')
    (htells : s'.received = s.received ++ tells)
    (hold : ∀ i ∈ tells, ∃ i' ∈ s.received, i.instant ≤ i'.instant) :
    StaysReported externalId s s' j := by
  obtain ⟨j', hj', hid, hext, hsame⟩ := hrow
  obtain ⟨i, hi, hshows, hlatest⟩ := h.latest
  obtain ⟨e, he, hsome, hlogType⟩ := h.logType
  have hsub : s.received ⊆ s'.received := htells ▸ List.subset_append_left _ _
  refine ⟨j', ⟨hj', hext.trans h.job, ⟨i, hsub hi, hshows.same hsame, fun i' hi' => ?_⟩,
    e, hsub he, hsome, hsame.logType.trans hlogType⟩,
    ⟨hid, hsub, fun t t' ht ht' => ?_, .inl hsame⟩⟩
  · rcases List.mem_append.mp (htells ▸ hi') with hmem | hmem
    · exact hlatest i' hmem
    · obtain ⟨i'', hi'', hle⟩ := hold i' hmem
      exact le_trans hle (hlatest i'' hi'')
  · rw [hsame.updatedAt, ht] at ht'
    exact le_of_eq (Option.some.inj ht')

/-- A step that replaces the report by newer information, which may leave the log type. -/
theorem Reported.replaced (h : Reported externalId s j) {s' : Reception} (i : Information)
    {j' : TransferJobRow} (hrow : j' ∈ s'.db transferJobs) (hid : j'.id = j.id)
    (hext : j'.externalId = j.externalId) (hshows : Shows i j')
    (hlogType : i.logType.isSome = true ∨ j'.providerLogType = j.providerLogType)
    (hinstant : ∀ t, j.providerStatusUpdatedAt = some t → t ≤ i.recordedAt)
    (htells : s'.received = s.received ++ [i]) (hnewer : i.NewerThan s.received) :
    StaysReported externalId s s' j := by
  have hi : i ∈ s'.received := htells ▸ List.mem_append.mpr (.inr (List.mem_singleton_self i))
  have hsub : s.received ⊆ s'.received := htells ▸ List.subset_append_left _ _
  have hreplaced : LogTypeReplaced s.received s'.received j j' := by
    rcases hlogType with hsome | hsame
    · exact .inr ⟨i, hi, hnewer, hsome, hshows.logType hsome⟩
    · exact .inl hsame
  have hknown : ∃ e ∈ s'.received, e.logType.isSome = true ∧ j'.providerLogType = e.logType := by
    rcases hlogType with hsome | hsame
    · exact ⟨i, hi, hsome, hshows.logType hsome⟩
    · obtain ⟨e, he, hsome, heq⟩ := h.logType
      exact ⟨e, hsub he, hsome, hsame.trans heq⟩
  refine ⟨j', ⟨hrow, hext.trans h.job, ⟨i, hi, hshows, fun i' hi' => ?_⟩, hknown⟩,
    ⟨hid, hsub, fun t u ht hu => ?_, .inr ⟨⟨i, hi, hshows, hnewer⟩, hreplaced⟩⟩⟩
  · rcases List.mem_append.mp (htells ▸ hi') with hmem | hmem
    · exact le_of_lt (hnewer i' hmem)
    · exact le_of_eq (congrArg _ (List.mem_singleton.mp hmem))
  · rw [hshows.updatedAt] at hu
    exact Option.some.inj hu ▸ hinstant t ht

variable {db : Database Row}

/-- The job of an external id. -/
theorem job_of_externalId (hc : metadata.Consistent db) {j first : TransferJobRow}
    (hj : j ∈ db transferJobs) (hext : j.externalId = externalId)
    (hfirst : ((db transferJobs).filter fun j : TransferJobRow =>
      j.externalId == externalId).head? = some first) : j = first := by
  have hmem := List.mem_filter.mp (List.mem_of_head? hfirst)
  refine (hc transferJobs).eq_of_clash hj hmem.1 ?_
  simp [metadata, uniqueConflict, hext, beq_iff_eq.mp hmem.2]

/-- What a lifecycle event does to the jobs, by its outcome. -/
def LifecycleRecorded (r : EventRecord) (event : TransferLifecycleEvent) (db : Database Row)
    (outcome : EventWriteResult) (db' : Database Row) : Prop :=
  (outcome ≠ .transferUpdated ∧ outcome ≠ .transferStale ∧
    db' transferJobs = db transferJobs) ∨
  (∀ e ∈ db webhookEvents, e.id ≠ event.eventId) ∧
    ((outcome = .transferStale ∧ db' transferJobs = db transferJobs ∧
        ∀ j ∈ db transferJobs, j.externalId = event.externalId →
          ∃ t, j.providerStatusUpdatedAt = some t ∧ event.updatedAt.instant ≤ t) ∨
      (outcome = .transferUpdated ∧
        db' transferJobs = assignWhere (fun j => j.externalId == event.externalId)
          (applyLifecycle r event) (db transferJobs) ∧
        (∃ j ∈ db transferJobs, j.externalId = event.externalId) ∧
        ∀ j ∈ db transferJobs, j.externalId = event.externalId →
          ∀ t, j.providerStatusUpdatedAt = some t → t < event.updatedAt.instant))

theorem lifecycleOutcome_cases (hc : metadata.Consistent db) (event : TransferLifecycleEvent) :
    let outcome := lifecycleOutcome ((db transferJobs).filter fun j : TransferJobRow =>
      j.externalId == event.externalId).head? event
    outcome = .transferUnmatched ∨
      (outcome = .transferStale ∧ ∀ j ∈ db transferJobs, j.externalId = event.externalId →
        ∃ t, j.providerStatusUpdatedAt = some t ∧ event.updatedAt.instant ≤ t) ∨
      (outcome = .transferUpdated ∧ (∃ j ∈ db transferJobs, j.externalId = event.externalId) ∧
        ∀ j ∈ db transferJobs, j.externalId = event.externalId →
          ∀ t, j.providerStatusUpdatedAt = some t → t < event.updatedAt.instant) := by
  intro outcome
  cases hfirst : ((db transferJobs).filter fun j : TransferJobRow =>
      j.externalId == event.externalId).head? with
  | none => exact .inl (by simp [outcome, hfirst, lifecycleOutcome])
  | some first =>
      have hmem := List.mem_filter.mp (List.mem_of_head? hfirst)
      have hfound : ∃ j ∈ db transferJobs, j.externalId = event.externalId :=
        ⟨first, hmem.1, beq_iff_eq.mp hmem.2⟩
      have heq : ∀ j ∈ db transferJobs, j.externalId = event.externalId → j = first :=
        fun j hj hext => job_of_externalId hc hj hext hfirst
      cases hstored : first.providerStatusUpdatedAt with
      | none =>
          refine .inr (.inr ⟨by simp [outcome, hfirst, lifecycleOutcome, hstored], hfound, ?_⟩)
          intro j hj hext t ht
          simp [heq j hj hext, hstored] at ht
      | some t =>
          by_cases hle : event.updatedAt.instant ≤ t
          · refine .inr (.inl ⟨by simp [outcome, hfirst, lifecycleOutcome, hstored, hle], ?_⟩)
            exact fun j hj hext => ⟨t, heq j hj hext ▸ hstored, hle⟩
          · refine .inr (.inr
              ⟨by simp [outcome, hfirst, lifecycleOutcome, hstored, hle], hfound, ?_⟩)
            intro j hj hext t' ht'
            rw [heq j hj hext, hstored] at ht'
            exact Option.some.inj ht' ▸ not_le.mp hle

theorem recordTransferEvent_recorded (hc : metadata.Consistent db) (r : EventRecord)
    {event : TransferLifecycleEvent} (hevent : r.event = .lifecycle event) :
    Establishes (respond metadata) (recordTransferEvent r event)
      (LifecycleRecorded r event db) db := by
  unfold recordTransferEvent
  simp only [select_bind, establishes_call, respond_select]
  have hcases := lifecycleOutcome_cases hc event
  generalize lifecycleOutcome _ event = outcome at hcases ⊢
  have hid : r.event.eventId = event.eventId := by rw [hevent]; rfl
  refine insertEvent_establishes (fun hnew db₁ h₁ => ?_)
    ((establishes_done _).mpr (.inl ⟨by simp, by simp, rfl⟩))
  rw [hid] at hnew
  unfold updateMatched
  split_ifs with houtcome
  · refine establishes_updateRows fun _ => (establishes_done _).mpr (.inr ⟨hnew, .inr ?_⟩)
    rcases hcases with h | ⟨h, -⟩ | ⟨-, hfound, hlater⟩
    · simp [h] at houtcome
    · simp [h] at houtcome
    · refine ⟨houtcome, ?_, hfound, hlater⟩
      rw [Database.set_self, insert_jobs h₁]
  · refine (establishes_done _).mpr ?_
    rcases hcases with h | ⟨h, hstale⟩ | ⟨h, -⟩
    · exact .inl ⟨houtcome, by simp [h], insert_jobs h₁⟩
    · exact .inr ⟨hnew, .inl ⟨h, insert_jobs h₁, hstale⟩⟩
    · exact absurd h houtcome

theorem record_lifecycle (hc : metadata.Consistent db) (jobId : TransferJobId) {r : EventRecord}
    {event : TransferLifecycleEvent} (hevent : r.event = .lifecycle event) :
    (∃ outcome, ((StoreOp.events (.record jobId r)).apply db).1 = .ok outcome ∧
      LifecycleRecorded r event db outcome ((StoreOp.events (.record jobId r)).apply db).2) ∨
    ∃ e, (StoreOp.events (.record jobId r)).apply db = (.error e, db) := by
  have hrecord : EventRecording.record jobId r = recordTransferEvent r event := by
    unfold EventRecording.record
    rw [hevent]
  change (∃ outcome, (atomically metadata (EventRecording.record jobId r) db).1 = .ok outcome ∧
      LifecycleRecorded r event db outcome
        (atomically metadata (EventRecording.record jobId r) db).2) ∨
    ∃ e, atomically metadata (EventRecording.record jobId r) db = (.error e, db)
  rw [hrecord]
  rcases Program.atomically_cases (respond metadata) (recordTransferEvent r event) db with
    ⟨outcome, db', hrun, happly⟩ | ⟨e, happly⟩
  · refine .inl ⟨outcome, ?_⟩
    change (Program.atomically (respond metadata) _ db).1 = _ ∧ LifecycleRecorded r event db
      outcome (Program.atomically (respond metadata) _ db).2
    rw [happly]
    exact ⟨rfl, recordTransferEvent_recorded hc r hevent _ _ hrun⟩
  · exact .inr ⟨e, happly⟩

theorem record_stays (hc : metadata.Consistent s.db) (h : Reported externalId s j)
    {jobId : TransferJobId} {r : EventRecord} {asOf : ℤ}
    (hrespects : Respects externalId s ⟨.events (.record jobId r), asOf⟩) :
    StaysReported externalId s (s.step externalId ⟨.events (.record jobId r), asOf⟩) j := by
  obtain ⟨t, ht⟩ := Option.isSome_iff_exists.mp h.updatedAt
  have hdb : (s.step externalId ⟨.events (.record jobId r), asOf⟩).db =
      ((StoreOp.events (.record jobId r)).apply s.db).2 := rfl
  have htold : (s.step externalId ⟨.events (.record jobId r), asOf⟩).received = s.received ++
      eventTells externalId r.event ((StoreOp.events (.record jobId r)).apply s.db).1 := rfl
  generalize s.step externalId ⟨.events (.record jobId r), asOf⟩ = s' at hdb htold ⊢
  cases hevent : r.event with
  | lifecycle event =>
      rcases record_lifecycle hc jobId hevent with ⟨outcome, hok, hrecorded⟩ | ⟨e, herror⟩
      · rw [hok, hevent] at htold
        rw [← hdb] at hrecorded
        rcases hrecorded with ⟨hupdated, hstale, hjobs⟩ | ⟨hnew, hrecorded⟩
        · refine h.kept _ ⟨j, hjobs ▸ h.row, rfl, rfl, .refl j⟩ htold ?_
          simp [eventTells, hupdated, hstale]
        · have hcond := hrespects event hevent
          rcases hrecorded with ⟨rfl, hjobs, hstale⟩ | ⟨rfl, hjobs, -, hlater⟩
          · refine h.kept _ ⟨j, hjobs ▸ h.row, rfl, rfl, .refl j⟩ htold fun i hi => ?_
            simp only [eventTells] at hi
            split_ifs at hi with htells
            · rw [List.mem_singleton.mp hi]
              obtain ⟨t', ht', hle⟩ := hstale j h.row (h.job.trans htells.1.symm)
              have hold := (hcond htells.1 hnew j h.row h.job t' ht').not.mp (not_lt.mpr hle)
              unfold Information.NewerThan at hold
              push Not at hold
              exact hold
            · simp at hi
          · by_cases hext : event.externalId = externalId
            · have hlt := hlater j h.row (h.job.trans hext.symm) t ht
              have hmem : applyLifecycle r event j ∈ s'.db transferJobs := by
                rw [hjobs]
                exact mem_assignWhere.mpr
                  (.inl ⟨j, h.row, beq_iff_eq.mpr (h.job.trans hext.symm), rfl⟩)
              refine h.replaced (eventInformation event) hmem rfl rfl ⟨rfl, rfl, rfl, fun _ => rfl⟩
                (.inl rfl) ?_ ?_ ?_
              · intro t' ht'
                exact le_of_lt (hlater j h.row (h.job.trans hext.symm) t' ht')
              · simpa [eventTells, hext] using htold
              · exact (hcond hext hnew j h.row h.job t ht).mp hlt
            · refine h.kept _ ⟨j, ?_, rfl, rfl, .refl j⟩ htold ?_
              · rw [hjobs]
                refine mem_assignWhere.mpr (.inr ⟨h.row, ?_⟩)
                simpa [h.job] using fun heq : externalId = event.externalId => hext heq.symm
              · simp [eventTells, hext]
      · rw [herror] at hdb htold
        refine h.kept _ ⟨j, hdb ▸ h.row, rfl, rfl, .refl j⟩ htold ?_
        simp [eventTells, hevent]
  | _ =>
      have hjobs := record_apply_jobs jobId r s.db
      rw [← hdb] at hjobs
      refine h.kept _ ⟨j, ?_, rfl, rfl, .refl j⟩ htold (by simp [eventTells, hevent])
      generalize hs' : s'.db transferJobs = jobs' at hjobs
      cases hjobs with
      | same => exact h.row
      | queued => exact List.mem_append.mpr (.inl h.row)
      | updated hlifecycle => simp [hevent] at hlifecycle

/-- An operation that tells nothing, and leaves the row of the job alone. -/
theorem Reported.untold (h : Reported externalId s j) {o : TimedOp}
    (htold : told externalId o s.db = [])
    (hrow : ∃ j' ∈ (o.op.apply s.db).2 transferJobs, j'.id = j.id ∧
      j'.externalId = j.externalId ∧ SameReport j j') :
    StaysReported externalId s (s.step externalId o) j := by
  refine h.kept [] hrow ?_ (by simp)
  rw [← htold]
  rfl

/-- What a finish or a claim writes, when it writes jobs at all. -/
theorem Reported.assigned (h : Reported externalId s j) {condition : TransferJobRow → Bool}
    {assign : TransferJobRow → TransferJobRow} {db' : Database Row}
    (hjobs : db' transferJobs = assignWhere condition assign (s.db transferJobs))
    (hsame : condition j = true → (assign j).id = j.id ∧
      (assign j).externalId = j.externalId ∧ SameReport j (assign j)) :
    ∃ j' ∈ db' transferJobs, j'.id = j.id ∧ j'.externalId = j.externalId ∧
      SameReport j j' := by
  rw [hjobs]
  by_cases hcond : condition j = true
  · exact ⟨assign j, mem_assignWhere.mpr (.inl ⟨j, h.row, hcond, rfl⟩), hsame hcond⟩
  · exact ⟨j, mem_assignWhere.mpr (.inr ⟨h.row, by simpa using hcond⟩), rfl, rfl, rfl, rfl,
      rfl, rfl⟩

theorem finish_stays (h : Reported externalId s j) {op : TransferStoreOp} {asOf : ℤ}
    {job : TransferJob} {f : JobFinish} (hop : finishOf op = some (job, f))
    (hrespects : Respects externalId s ⟨.transfers op, asOf⟩) :
    StaysReported externalId s (s.step externalId ⟨.transfers op, asOf⟩) j := by
  have hheld : heldBy job j = true → j.externalId ≠ externalId := by
    cases op with
    | refreshProviderStatus jobId transfer now => simp [finishOf] at hop
    | _ => exact hrespects job f hop j h.row
  refine h.untold (by cases op <;> simp_all [told, finishOf]) ?_
  change ∃ j' ∈ ((StoreOp.transfers op).apply s.db).2 transferJobs, _
  rw [(finishOf_apply hop s.db).2, finish_apply]
  split_ifs with hvalid
  · have hjobs := Database.set_self s.db transferJobs
      (assignWhere (heldBy job) f.apply (s.db transferJobs))
    exact h.assigned hjobs fun hheldBy => absurd h.job (hheld hheldBy)
  · exact ⟨j, h.row, rfl, rfl, .refl j⟩

/-- The row that a refresh leaves. -/
def refreshed (transfer : ProviderTransfer) (now : ℤ) (j : TransferJobRow) : TransferJobRow :=
  { j with
    providerTransferId := some transfer.id
    providerStatus := some transfer.status
    providerStatusUpdatedAt := some now
    updatedAt := now }

theorem refresh_apply (jobId : TransferJobId) (transfer : ProviderTransfer) (now : ℤ)
    (db : Database Row) :
    (StoreOp.transfers (.refreshProviderStatus jobId transfer now)).apply db =
      if metadata.Valid transferJobs (assignWhere (fun j : TransferJobRow => j.id == jobId)
          (refreshed transfer now) (db transferJobs)) then
        (.ok (), db.set transferJobs (assignWhere (fun j : TransferJobRow => j.id == jobId)
          (refreshed transfer now) (db transferJobs)))
      else (.error .integrityError, db) := atomically_updateRows

theorem refresh_stays (hc : metadata.Consistent s.db) (h : Reported externalId s j)
    {jobId : TransferJobId} {transfer : ProviderTransfer} {now asOf : ℤ}
    (hrespects : Respects externalId s
      ⟨.transfers (.refreshProviderStatus jobId transfer now), asOf⟩) :
    StaysReported externalId s
      (s.step externalId ⟨.transfers (.refreshProviderStatus jobId transfer now), asOf⟩) j := by
  have happly := refresh_apply jobId transfer now s.db
  split_ifs at happly with hvalid
  · by_cases hid : j.id = jobId
    · have hcond := hrespects j h.row hid h.job
      have hmem : refreshed transfer now j ∈ (s.step externalId ⟨.transfers
          (.refreshProviderStatus jobId transfer now), asOf⟩).db transferJobs := by
        change _ ∈ ((StoreOp.transfers _).apply s.db).2 transferJobs
        rw [happly]
        change _ ∈ Database.set s.db transferJobs _ transferJobs
        rw [Database.set_self]
        exact mem_assignWhere.mpr (.inl ⟨j, h.row, beq_iff_eq.mpr hid, rfl⟩)
      refine h.replaced (refreshInformation asOf transfer now) hmem rfl rfl
        ⟨rfl, rfl, rfl, fun hsome => Bool.noConfusion hsome⟩ (.inr rfl) hcond.2 ?_ hcond.1
      have hany : (s.db transferJobs).any (fun j : TransferJobRow =>
          j.id == jobId && j.externalId == externalId) = true :=
        List.any_eq_true.mpr ⟨j, h.row, by simp [hid, h.job]⟩
      simp [Reception.step, told, happly, hany, Except.isOk, Except.toBool]
    · refine h.untold ?_ ?_
      · have hany : (s.db transferJobs).any (fun j : TransferJobRow =>
            j.id == jobId && j.externalId == externalId) = false := by
          refine List.any_eq_false.mpr fun j' hj' hmatch => hid ?_
          simp only [Bool.and_eq_true, beq_iff_eq] at hmatch
          have hsame : j' = j := (hc transferJobs).eq_of_clash hj' h.row
            (by simp [metadata, uniqueConflict, hmatch.2, h.job])
          exact hsame ▸ hmatch.1
        simp [told, hany]
      · change ∃ j' ∈ ((StoreOp.transfers _).apply s.db).2 transferJobs, _
        rw [happly]
        have hjobs := Database.set_self s.db transferJobs (assignWhere
          (fun j : TransferJobRow => j.id == jobId) (refreshed transfer now)
          (s.db transferJobs))
        exact h.assigned hjobs fun hmatch => absurd (beq_iff_eq.mp hmatch) hid
  · refine h.untold ?_ ?_
    · simp [told, happly, Except.isOk, Except.toBool]
    · change ∃ j' ∈ ((StoreOp.transfers _).apply s.db).2 transferJobs, _
      rw [happly]
      exact ⟨j, h.row, rfl, rfl, .refl j⟩

theorem transfers_stays (hc : metadata.Consistent s.db) (h : Reported externalId s j)
    {op : TransferStoreOp} {asOf : ℤ} (hrespects : Respects externalId s ⟨.transfers op, asOf⟩) :
    StaysReported externalId s (s.step externalId ⟨.transfers op, asOf⟩) j := by
  cases op with
  | claim c =>
      refine h.untold rfl ?_
      change ∃ j' ∈ ((StoreOp.transfers (.claim c)).apply s.db).2 transferJobs, _
      rcases claim_apply hc c with ⟨-, happly⟩ | ⟨row, -, -, happly⟩
      · rw [happly]
        exact ⟨j, h.row, rfl, rfl, .refl j⟩
      · rw [happly]
        have hjobs := Database.set_self s.db transferJobs (assignWhere
          (fun j : TransferJobRow => j.id == row.id) (claimed c row) (s.db transferJobs))
        exact h.assigned hjobs fun _ => ⟨rfl, rfl, rfl, rfl, rfl, rfl⟩
  | syncCandidates limit =>
      refine h.untold rfl ⟨j, ?_, rfl, rfl, .refl j⟩
      exact StoreOp.apply_frame (.transfers (.syncCandidates limit))
        (by simp [StoreOp.tables, TransferStoreOp.tables]) s.db ▸ h.row
  | refreshProviderStatus jobId transfer now => exact refresh_stays hc h hrespects
  | succeeded job transfer now => exact finish_stays h rfl hrespects
  | retry job errorCode now delay => exact finish_stays h rfl hrespects
  | unknown job errorCode now delay => exact finish_stays h rfl hrespects
  | failed job errorCode now => exact finish_stays h rfl hrespects

theorem step_stays (hc : metadata.Consistent s.db) (h : Reported externalId s j) {o : TimedOp}
    (hrespects : Respects externalId s o) :
    StaysReported externalId s (s.step externalId o) j := by
  obtain ⟨op, asOf⟩ := o
  have hsame : (op.apply s.db).2 transferJobs = s.db transferJobs →
      ∃ j' ∈ (op.apply s.db).2 transferJobs, j'.id = j.id ∧ j'.externalId = j.externalId ∧
        SameReport j j' := fun hjobs => ⟨j, hjobs ▸ h.row, rfl, rfl, .refl j⟩
  cases op with
  | transfers op => exact transfers_stays hc h hrespects
  | events op =>
      cases op with
      | record jobId r => exact record_stays hc h hrespects
      | recordIgnoredWorkspace r =>
          exact h.untold rfl (hsame (recordIgnoredWorkspace_apply_jobs r s.db))
  | invoices op =>
      refine h.untold rfl (hsame (StoreOp.apply_frame _ ?_ s.db))
      cases op <;> simp [StoreOp.tables, InvoiceStoreOp.tables]
  | trials op =>
      refine h.untold rfl (hsame (StoreOp.apply_frame _ ?_ s.db))
      cases op <;> simp [StoreOp.tables, TrialStoreOp.tables]

/-! ### Sequences of operations -/

theorem steps_consistent {ops : List TimedOp} (hc : metadata.Consistent s.db) :
    metadata.Consistent (s.steps externalId ops).db := by
  induction ops generalizing s with
  | nil => exact hc
  | cons o ops ih => exact ih (StoreOp.apply_consistent hc o.op)

theorem steps_stays {ops : List TimedOp} (hc : metadata.Consistent s.db)
    (h : Reported externalId s j) (hrespects : RespectsAll externalId s ops) :
    StaysReported externalId s (s.steps externalId ops) j := by
  induction ops generalizing s j with
  | nil => exact ⟨j, h, .refl s j⟩
  | cons o ops ih =>
      obtain ⟨ho, hrest⟩ := hrespects
      obtain ⟨j₁, h₁, hlater⟩ := step_stays hc h ho
      obtain ⟨j₂, h₂, hlater'⟩ := ih (StoreOp.apply_consistent hc o.op) h₁ hrest
      exact ⟨j₂, h₂, hlater.trans hlater' h₁.updatedAt⟩

/-- An event that was applied is the report of its job. -/
theorem applied_reported {db : Database Row} (hc : metadata.Consistent db)
    {jobId : TransferJobId} {r : EventRecord} {event : TransferLifecycleEvent}
    (hevent : r.event = .lifecycle event)
    (happlied : ((StoreOp.events (.record jobId r)).apply db).1 = .ok .transferUpdated) :
    ∃ j, Reported event.externalId ⟨((StoreOp.events (.record jobId r)).apply db).2,
      [eventInformation event]⟩ j := by
  rcases record_lifecycle hc jobId hevent with ⟨outcome, hok, hrecorded⟩ | ⟨e, herror⟩
  · obtain rfl := Except.ok.inj (happlied.symm.trans hok)
    rcases hrecorded with ⟨hne, -⟩ | ⟨-, ⟨hne, -⟩ | ⟨-, hjobs, ⟨j, hj, hext⟩, -⟩⟩
    · exact absurd rfl hne
    · exact absurd hne (by decide)
    · refine ⟨applyLifecycle r event j, ?_, hext,
        ⟨_, List.mem_singleton_self _, ⟨rfl, rfl, rfl, fun _ => rfl⟩, by simp⟩,
        _, List.mem_singleton_self _, rfl, rfl⟩
      change _ ∈ ((StoreOp.events (.record jobId r)).apply db).2 transferJobs
      rw [hjobs]
      exact mem_assignWhere.mpr (.inl ⟨j, hj, beq_iff_eq.mpr hext, rfl⟩)
  · rw [herror] at happlied
    exact absurd happlied (by simp)

/-- Once an event is applied to a job, the job has a report at every later time, of the latest
information received, and it is replaced only by newer information, in every sequence of
operations that meets the condition. -/
theorem reports_only_newer {db : Database Row} (hc : metadata.Consistent db)
    {jobId : TransferJobId} {r : EventRecord} {event : TransferLifecycleEvent}
    (hevent : r.event = .lifecycle event)
    (happlied : ((StoreOp.events (.record jobId r)).apply db).1 = .ok .transferUpdated)
    {ops ops' : List TimedOp} {s s' : Reception}
    (hs : s = Reception.steps event.externalId ⟨((StoreOp.events (.record jobId r)).apply db).2,
      [eventInformation event]⟩ ops)
    (hs' : s' = s.steps event.externalId ops')
    (hrespects : RespectsAll event.externalId ⟨((StoreOp.events (.record jobId r)).apply db).2,
      [eventInformation event]⟩ (ops ++ ops')) :
    ∃ j j', Reported event.externalId s j ∧ Reported event.externalId s' j' ∧
      Later s s' j j' := by
  obtain ⟨j₀, h₀⟩ := applied_reported hc hevent happlied
  have hc₀ := StoreOp.apply_consistent hc (.events (.record jobId r))
  obtain ⟨hops, hops'⟩ := respectsAll_append hrespects
  obtain ⟨j, h, -⟩ := steps_stays hc₀ h₀ hops
  rw [← hs] at h hops'
  have hcs : metadata.Consistent s.db := hs ▸ steps_consistent hc₀
  obtain ⟨j', h', hlater⟩ := steps_stays hcs h hops'
  exact ⟨j, j', h, hs' ▸ h', hs' ▸ hlater⟩

/-! ### A lifecycle event between a claim and its finish -/

/-- The transfer of the credited invoice, as the provider reported it at 30 s. -/
def createdEvent : TransferLifecycleEvent where
  eventId := "l"
  transferId := "t"
  externalId := (buildTransferCommand "i" 4950).externalId
  status := "created"
  logType := "created"
  updatedAt := ⟨seconds 30, some 0⟩
  workspaceId := "w"

def createdRecord : EventRecord := receivedRecord (.lifecycle createdEvent) "h" (seconds 31)

/-- The credit of the invoice is recorded, and its job may be claimed. -/
def queuedDb : Database Row :=
  let credited : VerifiedEvent := .credited
    { eventId := "e", invoiceId := "i", amount := 5000, fee := 50, workspaceId := "w", tags := [] }
  ((StoreOp.events (.record "j" (receivedRecord credited "h" 0))).apply creditWorld.db).2

def jobClaim : StoreOp := .transfers (.claim ⟨0, seconds 120⟩)

/-- The job as the claim returns it. -/
def claimedToken : TransferJob where
  id := "j"
  eventId := "e"
  invoiceId := "i"
  amount := 5000
  fee := 50
  netAmount := 4950
  externalId := (buildTransferCommand "i" 4950).externalId
  tag := (buildTransferCommand "i" 4950).tag
  status := .processing
  attempts := 1
  leaseUntil := seconds 120
  claimedFrom := some .pending

def lifecycle : StoreOp := .events (.record "k" createdRecord)

/-- The worker's own finish, with the transfer that it got from the provider. -/
def workerFinish : StoreOp :=
  .transfers (.succeeded claimedToken ⟨"t", createdEvent.externalId, "created"⟩ (seconds 2))

theorem claimed_consistent : metadata.Consistent (jobClaim.apply queuedDb).2 :=
  StoreOp.apply_consistent (StoreOp.apply_consistent (by decide) _) _

/-- The provider's answer of 50 s, written at 60 s. -/
def refresh : TimedOp where
  op := .transfers (.refreshProviderStatus "j" ⟨"t", createdEvent.externalId, "success"⟩
    (seconds 60))
  asOf := seconds 50

/-- The database after an event, with what the event said. -/
def afterEvent (db : Database Row) : Reception :=
  ⟨(lifecycle.apply db).2, [eventInformation createdEvent]⟩

/-- The report arrives after the finish, and a refresh is later. -/
theorem reports_only_newer_refreshed :
    ∃ j j', Reported createdEvent.externalId
        (afterEvent (workerFinish.apply (jobClaim.apply queuedDb).2).2) j ∧
      Reported createdEvent.externalId (Reception.steps createdEvent.externalId
        (afterEvent (workerFinish.apply (jobClaim.apply queuedDb).2).2) [refresh]) j' ∧
      Later (afterEvent (workerFinish.apply (jobClaim.apply queuedDb).2).2)
        (Reception.steps createdEvent.externalId
          (afterEvent (workerFinish.apply (jobClaim.apply queuedDb).2).2) [refresh]) j j' := by
  have happlied : ((StoreOp.events (.record "k" createdRecord)).apply
      (workerFinish.apply (jobClaim.apply queuedDb).2).2).1 = .ok .transferUpdated := by rfl
  have hs : afterEvent (workerFinish.apply (jobClaim.apply queuedDb).2).2 =
      Reception.steps createdEvent.externalId
        (afterEvent (workerFinish.apply (jobClaim.apply queuedDb).2).2) [] := rfl
  refine reports_only_newer (StoreOp.apply_consistent claimed_consistent _) rfl happlied hs rfl
    ⟨?_, trivial⟩
  have hbefore : ∀ j ∈ (lifecycle.apply (workerFinish.apply (jobClaim.apply queuedDb).2).2).2
      transferJobs, j.providerStatusUpdatedAt = some (seconds 30) := by decide
  refine fun j hj _ _ => ⟨by decide, fun t hupdated => ?_⟩
  obtain rfl := Option.some.inj (hupdated.symm.trans (hbefore j hj))
  decide

/-- A report between the claim of a job and its finish is lost: the finish has the time of
the worker's clock and no log type. -/
theorem report_replaced :
    (jobClaim.apply queuedDb).1 = .ok (some claimedToken) ∧
      (lifecycle.apply (jobClaim.apply queuedDb).2).1 = .ok EventWriteResult.transferUpdated ∧
      (∀ j ∈ (Reception.steps createdEvent.externalId (afterEvent (jobClaim.apply queuedDb).2)
          [⟨workerFinish, 0⟩]).db transferJobs,
        j.externalId = createdEvent.externalId ∧ j.providerLogType = none ∧
          j.providerStatusUpdatedAt = some (seconds 2)) ∧
      ¬ ∃ j, Reported createdEvent.externalId (Reception.steps createdEvent.externalId
        (afterEvent (jobClaim.apply queuedDb).2) [⟨workerFinish, 0⟩]) j := by
  have hafter : ∀ j ∈ (Reception.steps createdEvent.externalId
      (afterEvent (jobClaim.apply queuedDb).2) [⟨workerFinish, 0⟩]).db transferJobs,
      j.externalId = createdEvent.externalId ∧ j.providerLogType = none ∧
        j.providerStatusUpdatedAt = some (seconds 2) := by decide
  refine ⟨by rfl, by rfl, hafter, fun ⟨j, hreported⟩ => ?_⟩
  obtain ⟨i, -, hsome, hlogType⟩ := hreported.logType
  rw [← hlogType, (hafter j hreported.row).2.1] at hsome
  cases hsome

end StarkbankTrial.LifecycleStatus
