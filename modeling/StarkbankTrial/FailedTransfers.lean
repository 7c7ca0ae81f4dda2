import StarkbankTrial.TransferOnce
import StarkbankTrial.JobLeases

/-!
# What a permanent failure tells about the provider

One worker, and deliveries, interleaved call by call. The worker may stop between any two
calls. Lookups that answer are truthful, and a creation may take effect and still fail.

A job fails when its transfer is known to be missing, or when the worker gives up on a
lookup that did not answer.
-/
namespace StarkbankTrial.FailedTransfers
open Domain InteractivePrograms InterleavedRuns RelationalTables DatabaseSchema
open DatabaseSchema.Table
open EventRecording TransferClaims StoreOperations JobChanges JobLeases ExternalCalls
open ProviderClient TransferWorker WorkerRules Services ScriptedRuns
open TransferOnce (ForeignActivity Backed)

/-! ### The provider -/

/-- No transfer with the external id is held. -/
def Free (w : World) (externalId : ExternalId) : Prop :=
  ∀ t ∈ w.transfers, t.request.externalId ≠ externalId

/-- An answer of `find_transfer` says what is held. -/
def Truthful (w : World) (externalId : ExternalId) :
    Except ProviderError (Option ProviderTransfer) → Prop
  | .ok (some t) => ∃ x ∈ w.transfers, x.request.externalId = externalId ∧ x.id = t.id
  | .ok none => Free w externalId
  | .error _ => True

/-- The error that `create_transfer` raises, before a refusal is looked up. -/
def createError : SdkAnswer SdkTransfer → Option ProviderErrorKind
  | [] => some .unknownOutcome
  | .error e :: _ => some (raiseProvider e "create_transfer" true).kind
  | .ok _ :: _ => none

/-- A creation takes effect and answers, takes effect and raises an unknown outcome, raises
one without effect, or is refused with a permanent error. -/
inductive TransferCreated (held : List HeldTransfer) (request : TransferRequest) :
    SdkAnswer SdkTransfer → List HeldTransfer → Prop
  | created {id : TransferId} {status : String} :
      TransferCreated held request [.ok ⟨id, request.externalId, status⟩]
        (held ++ [⟨id, request, status⟩])
  | lost {answer : SdkAnswer SdkTransfer} {id : TransferId} {status : String} :
      createError answer = some .unknownOutcome →
      TransferCreated held request answer (held ++ [⟨id, request, status⟩])
  | failed {answer : SdkAnswer SdkTransfer} : createError answer = some .unknownOutcome →
      TransferCreated held request answer held
  | refused {answer : SdkAnswer SdkTransfer} : createError answer = some .permanent →
      TransferCreated held request answer held

def provider : Provider where
  invoiceCreate _ _ _ _ := True
  invoiceQuery _ _ _ _ := True
  transferCreate w request answer held := TransferCreated w.transfers request answer held
  transferQuery w _ tags answer := ∀ invoiceId amount,
    tags = [(buildTransferCommand invoiceId amount).tag] →
      Truthful w (buildTransferCommand invoiceId amount).externalId
        (firstWithExternalId (buildTransferCommand invoiceId amount).externalId answer)

/-! ### The system -/

section
variable {ι : Type} (worker : ι) (cfg : WorkerSettings)

abbrev WorkerLog (ι : Type) := Log ι Call Call.Answer

/-- The worker at its own index, and deliveries at all others. -/
inductive Admitted : ι → Service Unit → Prop
  | worker : Admitted worker (processOne cfg).discard
  | delivery {i : ι} (jobId : TransferJobId) (delivery : Delivery) : i ≠ worker →
      Admitted i (receive jobId delivery).discard

def system : System ι Call Call.Answer Failure Unit World where
  admits _ _ i p := Admitted worker cfg i p
  exec _ w _ call r w' := Performs provider (fun _ => True) w call r w'
  drift _ w w' := Reordered w.db w'.db ∧ ForeignActivity w.transfers w'.transfers
  dies _ w _ w' := w' = w

/-! ### Where the worker stands -/

/-- The calls of the worker for one claimed job. -/
inductive Stage where
  | claimed
  | lookedUp
  | created (answer : SdkAnswer SdkTransfer)
deriving Repr, DecidableEq

def stageOf (e : Entry ι Call Call.Answer) : Option Stage :=
  match e with
  | ⟨_, .store (.transfers (.claim _)), _⟩ => some .claimed
  | ⟨_, .transferQuery _ _, _⟩ => some .lookedUp
  | ⟨_, .transferCreate _, answer⟩ => some (.created answer)
  | _ => none

/-- What the worker did, latest first. -/
def own [DecidableEq ι] (l : WorkerLog ι) : WorkerLog ι := l.filter fun e => e.process = worker

/-- A lookup at this stage whose error ends the job: a permanent error of the first lookup, or
a transient one of the last lookup of a job without attempts left. -/
def EndsJob (job : TransferJob) (error : ProviderError) : Stage → Prop
  | .claimed => error.kind.isTransient = false ∨
      (job.claimedFrom = some .unknown ∧ cfg.transferMaxAttempts ≤ job.attempts)
  | .lookedUp => error.kind.isTransient = true ∧ cfg.transferMaxAttempts ≤ job.attempts
  | .created answer => createError answer = some .unknownOutcome ∧
      error.kind.isTransient = true ∧ cfg.transferMaxAttempts ≤ job.attempts

/-- The last thing that the worker did is a lookup for the job, and its error ends the job. -/
def GaveUp [DecidableEq ι] (l : WorkerLog ι) (job : TransferJob) : Prop :=
  ∃ answer before stage error,
    own worker l = ⟨worker, .transferQuery 10 [(commandOf job).tag], answer⟩ :: before ∧
    before.findSome? claimedJob = some job ∧ before.findSome? stageOf = some stage ∧
    firstWithExternalId (commandOf job).externalId answer = .error error ∧
    EndsJob cfg job error stage

/-! ### The protocol -/

structure Inv (w : World) : Prop where
  consistent : metadata.Consistent w.db
  keys : ∀ j ∈ w.db transferJobs,
    j.externalId = (buildTransferCommand j.invoiceId j.netAmount).externalId

/-- The worker counts on its own entries, on the jobs, and on being the only one that creates
transfers for jobs. -/
structure Rely [DecidableEq ι] (l : WorkerLog ι) (w : World) (l' : WorkerLog ι) (w' : World) :
    Prop where
  own : own worker l' = own worker l
  jobs : ∀ j ∈ w.db transferJobs, ∃ j' ∈ w'.db transferJobs, SameTransfer j j'
  free : ∀ invoiceId amount, Free w (buildTransferCommand invoiceId amount).externalId →
    Free w' (buildTransferCommand invoiceId amount).externalId

/-- A job may fail now. -/
def Failing [DecidableEq ι] (job : TransferJob) (l : WorkerLog ι) (w : World) : Prop :=
  Backed job w ∧ (Free w (commandOf job).externalId ∨ GaveUp worker cfg l job)

/-- The transactions that the programs come to. -/
inductive Issued [DecidableEq ι] (l : WorkerLog ι) (w : World) : StoreOp → Prop
  | claim (claim : JobClaim) : Issued l w (.transfers (.claim claim))
  | finish {op : TransferStoreOp} {job : TransferJob} {f : JobFinish} :
      finishOf op = some (job, f) →
      (f.status = .permanentFailure → Failing worker cfg job l w) → Issued l w (.transfers op)
  | events (op : EventStoreOp) : Issued l w (.events op)

def protocol [DecidableEq ι] : Protocol ι Call Call.Answer Failure Unit World where
  toSystem := system worker cfg
  inv _ w := Inv w
  rely i l w l' w' := i = worker → Rely worker l w l' w'
  demand _ call l w :=
    match call with
    | .store op => Issued worker cfg l w op
    | _ => True

variable {worker cfg}
variable {w w' : World} {l l' : WorkerLog ι} {job : TransferJob}

theorem Free.drift {invoiceId : InvoiceId} {amount : ℤ}
    (h : Free w (buildTransferCommand invoiceId amount).externalId)
    (hact : ForeignActivity w.transfers w'.transfers) :
    Free w' (buildTransferCommand invoiceId amount).externalId := by
  obtain ⟨status, foreign, hforeign, hheld⟩ := hact
  intro t ht hext
  rw [hheld] at ht
  rcases List.mem_append.mp ht with ht | ht
  · obtain ⟨t₀, ht₀, rfl⟩ := List.mem_map.mp ht
    exact h t₀ ht₀ hext
  · exact hforeign t ht invoiceId (.inl hext)

theorem Inv.drift (h : Inv w) (hdb : Reordered w.db w'.db) : Inv w' :=
  ⟨hdb.consistent h.consistent, fun j hj => h.keys j (hdb.mem.mp hj)⟩

/-- A recorded event adds only a job with its own keys. -/
theorem keys_recorded {jobId : TransferJobId} {r : EventRecord} {jobs jobs' : List TransferJobRow}
    (hjobs : JobsRecorded jobId r jobs jobs')
    (h : ∀ j ∈ jobs, j.externalId = (buildTransferCommand j.invoiceId j.netAmount).externalId) :
    ∀ j ∈ jobs', j.externalId = (buildTransferCommand j.invoiceId j.netAmount).externalId := by
  intro j' hj'
  cases hjobs with
  | same => exact h j' hj'
  | queued =>
      rcases List.mem_append.mp hj' with hj' | hj'
      · exact h j' hj'
      · rw [List.mem_singleton.mp hj']
        rfl
  | updated =>
      rcases mem_assignWhere.mp hj' with ⟨j, hj, -, rfl⟩ | ⟨hj, -⟩
      · exact h j hj
      · exact h j' hj

/-- A transaction keeps all jobs, and their keys. -/
theorem Inv.stored (h : Inv w) (op : StoreOp) :
    Inv { w with db := (op.apply w.db).2 } ∧
      ∀ j ∈ w.db transferJobs, ∃ j' ∈ (op.apply w.db).2 transferJobs, SameTransfer j j' := by
  have hc := StoreOp.apply_consistent h.consistent op
  have hsame : SameTransfers w.db (op.apply w.db).2 →
      Inv { w with db := (op.apply w.db).2 } ∧
        ∀ j ∈ w.db transferJobs, ∃ j' ∈ (op.apply w.db).2 transferJobs, SameTransfer j j' := by
    intro hsame
    refine ⟨⟨hc, fun j' hj' => ?_⟩, hsame.kept⟩
    obtain ⟨j, hj, hs⟩ := hsame.no_new j' hj'
    rw [hs.externalId, hs.invoiceId, hs.netAmount]
    exact h.keys j hj
  by_cases hevent : ∀ eventOp, op ≠ .events eventOp
  · exact hsame (StoreOp.apply_sameTransfers hevent w.db)
  · obtain ⟨eventOp, hop⟩ := not_forall.mp hevent
    obtain rfl := not_not.mp hop
    cases eventOp with
    | recordIgnoredWorkspace r => exact hsame (.of_eq (recordIgnoredWorkspace_apply_jobs r w.db))
    | record jobId r =>
        have hjobs := record_apply_jobs jobId r w.db
        exact ⟨⟨hc, keys_recorded hjobs h.keys⟩, hjobs.kept⟩

section
variable [DecidableEq ι]

theorem own_cons_self (call : Call) (r : call.Answer) (l : WorkerLog ι) :
    own worker (⟨worker, call, r⟩ :: l) = ⟨worker, call, r⟩ :: own worker l := by
  simp [own]

theorem own_cons_of_ne {i : ι} (hi : i ≠ worker) (call : Call) (r : call.Answer)
    (l : WorkerLog ι) : own worker (⟨i, call, r⟩ :: l) = own worker l := by
  simp [own, hi]

theorem Rely.refl (l : WorkerLog ι) (w : World) : Rely worker l w l w :=
  ⟨rfl, fun j hj => ⟨j, hj, .refl j⟩, fun _ _ h => h⟩

theorem Rely.trans {l'' : WorkerLog ι} {w'' : World} (h : Rely worker l w l' w')
    (h' : Rely worker l' w' l'' w'') : Rely worker l w l'' w'' where
  own := h'.own.trans h.own
  jobs := by
    intro j hj
    obtain ⟨j', hj', hs⟩ := h.jobs j hj
    obtain ⟨j'', hj'', hs'⟩ := h'.jobs j' hj'
    exact ⟨j'', hj'', hs.trans hs'⟩
  free invoiceId amount hfree := h'.free invoiceId amount (h.free invoiceId amount hfree)

theorem sound : (protocol worker cfg).Sound where
  rely_refl _ l w _ := .refl l w
  rely_trans _ _ _ _ _ _ _ h h' hi := (h hi).trans (h' hi)
  drift_keeps l w w' h hd := ⟨Inv.drift h hd.1, fun _ _ =>
    ⟨rfl, fun j hj => ⟨j, hd.1.mem.mpr hj, .refl j⟩, fun _ _ hfree => hfree.drift hd.2⟩⟩
  dies_keeps := by
    rintro l w i w' h rfl
    exact ⟨h, fun _ _ _ => .refl _ _⟩

/-! ### Facts of the worker -/

theorem Rely.backed (hr : Rely worker l w l' w') (h : Backed job w) : Backed job w' := by
  obtain ⟨j, hj, hid, hinvoice, hnet⟩ := h
  obtain ⟨j', hj', hs⟩ := hr.jobs j hj
  exact ⟨j', hj', hs.id.trans hid, hs.invoiceId.trans hinvoice, hs.netAmount.trans hnet⟩

theorem GaveUp.rely (h : GaveUp worker cfg l job) (hr : Rely worker l w l' w') :
    GaveUp worker cfg l' job := by
  unfold GaveUp
  rw [hr.own]
  exact h

theorem Failing.rely (h : Failing worker cfg job l w) (hr : Rely worker l w l' w') :
    Failing worker cfg job l' w' :=
  ⟨hr.backed h.1, h.2.imp (hr.free _ _) fun hgave => hgave.rely hr⟩

/-- The worker works on the job and stands after this stage. -/
structure At (worker : ι) (job : TransferJob) (stage : Stage) (l : WorkerLog ι) (w : World) :
    Prop where
  backed : Backed job w
  job : (own worker l).findSome? claimedJob = some job
  stage : (own worker l).findSome? stageOf = some stage

theorem At.rely {stage : Stage} (h : At worker job stage l w) (hr : Rely worker l w l' w') :
    At worker job stage l' w' := by
  refine ⟨hr.backed h.backed, ?_, ?_⟩
  · rw [hr.own]
    exact h.job
  · rw [hr.own]
    exact h.stage

/-- A fact of the worker that its rely relation keeps. -/
theorem stable_of {fact : WorkerLog ι → World → Prop}
    (h : ∀ l w l' w', fact l w → Rely worker l w l' w' → fact l' w') :
    (protocol worker cfg).Stable worker fact :=
  fun l w l' w' hfact hr _ => h l w l' w' hfact (hr rfl)

/-- A call of the worker, from what it does to the world. -/
theorem triple_of {pre : WorkerLog ι → World → Prop} {call : Call}
    {result : call.Answer → WorkerLog ι → World → Prop}
    (hstable : ∀ l w l' w', pre l w → Rely worker l w l' w' → pre l' w')
    (hdemand : ∀ l w, pre l w → (protocol worker cfg).demand worker call l w)
    (h : ∀ l w r w', pre l w → Inv w → Performs provider (fun _ => True) w call r w' →
      Inv w' ∧ result r (⟨worker, call, r⟩ :: l) w') :
    (protocol worker cfg).Triple worker pre call result where
  stable := stable_of hstable
  demand l w hpre _ := hdemand l w hpre
  keeps l w r w' hpre hi he := ⟨(h l w r w' hpre hi he).1, fun _ hne heq => absurd heq hne⟩
  result l w r w' hpre hi he := (h l w r w' hpre hi he).2

theorem triple_store {pre : WorkerLog ι → World → Prop} {op : StoreOp}
    (hstable : ∀ l w l' w', pre l w → Rely worker l w l' w' → pre l' w')
    (hop : ∀ l w, pre l w → Issued worker cfg l w op) :
    (protocol worker cfg).Triple worker pre (.store op) fun _ _ _ => True := by
  refine triple_of hstable hop fun l w r w' _ hi he => ⟨?_, trivial⟩
  obtain ⟨-, rfl⟩ := he
  exact (Inv.stored hi op).1

/-- A finish that fails no job. -/
theorem triple_finish {op : TransferStoreOp} {f : JobFinish} (hop : finishOf op = some (job, f))
    (hstatus : f.status ≠ .permanentFailure) :
    (protocol worker cfg).Triple worker (fun _ _ => True) (.store (.transfers op))
      fun _ _ _ => True :=
  triple_store (fun _ _ _ _ _ _ => trivial) fun _ _ _ =>
    .finish hop fun hfailed => absurd hfailed hstatus

/-- What a lookup leaves behind. `free` says that the transfer was known to be missing. -/
structure LookedUp (worker : ι) (cfg : WorkerSettings) (job : TransferJob) (stage : Stage)
    (free : Prop) (r : Except ProviderError (Option ProviderTransfer)) (l : WorkerLog ι)
    (w : World) : Prop where
  at_ : At worker job .lookedUp l w
  free : free ∨ r = .ok none → Free w (commandOf job).externalId
  gaveUp : ∀ e, r = .error e → EndsJob cfg job e stage → GaveUp worker cfg l job

theorem triple_query (stage : Stage) (free : Prop) :
    (protocol worker cfg).Triple worker
      (fun l w => At worker job stage l w ∧ (free → Free w (commandOf job).externalId))
      (.transferQuery 10 [(commandOf job).tag]) fun answer =>
        LookedUp worker cfg job stage free
          (firstWithExternalId (commandOf job).externalId answer) := by
  refine triple_of (fun l w l' w' h hr => ⟨h.1.rely hr, fun hf => hr.free _ _ (h.2 hf)⟩)
    (fun _ _ _ => trivial) fun l w answer w' hpre hi he => ?_
  obtain ⟨hat, hfree⟩ := hpre
  obtain ⟨htrue, rfl⟩ := he
  have htrue := htrue job.invoiceId job.netAmount rfl
  refine ⟨hi, ⟨hat.backed, ?_, ?_⟩, ?_, ?_⟩
  · rw [own_cons_self, List.findSome?_cons]
    exact hat.job
  · rw [own_cons_self, List.findSome?_cons]
    rfl
  · rintro (hf | hnone)
    · exact hfree hf
    · change Truthful w' _ (firstWithExternalId (commandOf job).externalId answer) at htrue
      rw [hnone] at htrue
      exact htrue
  · intro e herror hends
    exact ⟨answer, own worker l, stage, e, own_cons_self _ _ _, hat.job, hat.stage, herror, hends⟩

/-- A creation of a transfer that is missing: a permanent error leaves it missing. -/
theorem triple_create :
    (protocol worker cfg).Triple worker
      (fun l w => At worker job .lookedUp l w ∧ Free w (commandOf job).externalId)
      (.transferCreate (transferRequest (commandOf job))) fun answer l w =>
        At worker job (.created answer) l w ∧
          (createError answer ≠ none → createError answer ≠ some .unknownOutcome →
            createError answer = some .permanent ∧ Free w (commandOf job).externalId) := by
  refine triple_of (fun l w l' w' h hr => ⟨h.1.rely hr, hr.free _ _ h.2⟩)
    (fun _ _ _ => trivial) fun l w answer w' hpre hi he => ?_
  obtain ⟨hat, hfree⟩ := hpre
  obtain ⟨held, hcreated, rfl⟩ := he
  refine ⟨⟨hi.consistent, hi.keys⟩, ⟨hat.backed, ?_, ?_⟩, fun hsome hsure => ?_⟩
  · rw [own_cons_self, List.findSome?_cons]
    exact hat.job
  · rw [own_cons_self, List.findSome?_cons]
    rfl
  · cases hcreated with
    | created => exact absurd rfl hsome
    | lost hunknown => exact absurd hunknown hsure
    | failed hunknown => exact absurd hunknown hsure
    | refused hpermanent => exact ⟨hpermanent, hfree⟩

/-! ### The branches of `process_one` -/

variable {B : Type} {stage : Stage} {free : Prop} {time : ℤ}

/-- On the last attempt a lookup at this stage ends the job whenever its error is transient. -/
def Final (cfg : WorkerSettings) (job : TransferJob) (stage : Stage) : Prop :=
  cfg.transferMaxAttempts ≤ job.attempts →
    ∀ e : ProviderError, e.kind.isTransient = true → EndsJob cfg job e stage

/-- What holds after `ensure_transfer` raised. -/
structure EnsureFailed (worker : ι) (cfg : WorkerSettings) (job : TransferJob)
    (e : ProviderError) (l : WorkerLog ι) (w : World) : Prop where
  permanent : e.kind.isTransient = false → Failing worker cfg job l w
  transient : e.kind.isTransient = true →
    ∃ stage, At worker job stage l w ∧ Final cfg job stage

theorem findTransfer_bind (free : Prop)
    {f : Except ProviderError (Option ProviderTransfer) → Service B}
    (hat : At worker job stage l w) (hfree : free → Free w (commandOf job).externalId)
    (hnext : ∀ l w r, LookedUp worker cfg job stage free r l w →
      Ensures (protocol worker cfg) worker (f r) Anything l w) :
    Ensures (protocol worker cfg) worker (findTransfer (commandOf job) >>= f) Anything l w :=
  .call ⟨hat, hfree⟩ (triple_query stage free) fun _ l w hr => hnext l w _ hr

theorem LookedUp.failing {r : Except ProviderError (Option ProviderTransfer)}
    (h : LookedUp worker cfg job stage free r l w)
    (hends : free ∨ r = .ok none ∨ ∃ e, r = .error e ∧ EndsJob cfg job e stage) :
    Failing worker cfg job l w := by
  refine ⟨h.at_.backed, ?_⟩
  rcases hends with hfree | hnone | ⟨e, herror, hends⟩
  · exact .inl (h.free (.inl hfree))
  · exact .inl (h.free (.inr hnone))
  · exact .inr (h.gaveUp e herror hends)

theorem final_lookedUp : Final cfg job .lookedUp :=
  fun hlast _ htransient => ⟨htransient, hlast⟩

theorem reconcileRefused_bind {f : Except ProviderError ProviderTransfer → Service B}
    (hat : At worker job stage l w) (hfree : Free w (commandOf job).externalId)
    (hnext : ∀ l w r, (∀ e, r = .error e → EnsureFailed worker cfg job e l w) →
      Ensures (protocol worker cfg) worker (f r) Anything l w) :
    Ensures (protocol worker cfg) worker (reconcileRefused (commandOf job) >>= f) Anything l w := by
  unfold reconcileRefused
  rw [bind_assoc]
  refine findTransfer_bind True hat (fun _ => hfree) fun l w r hr => ?_
  have hfailed : ∀ e, EnsureFailed worker cfg job e l w := fun e =>
    ⟨fun _ => hr.failing (.inl trivial), fun _ => ⟨.lookedUp, hr.at_, final_lookedUp⟩⟩
  match r with
  | .error e => exact hnext l w _ fun e _ => hfailed e
  | .ok none => exact hnext l w _ fun e _ => hfailed e
  | .ok (some transfer) => exact hnext l w _ (by simp)

theorem createTransfer_bind {f : Except ProviderError ProviderTransfer → Service B}
    (hat : At worker job .lookedUp l w) (hfree : Free w (commandOf job).externalId)
    (hnext : ∀ l w r, (∀ e, r = .error e → EnsureFailed worker cfg job e l w) →
      Ensures (protocol worker cfg) worker (f r) Anything l w) :
    Ensures (protocol worker cfg) worker (createTransfer (commandOf job) >>= f) Anything l w := by
  refine .call ⟨hat, hfree⟩ triple_create fun answer l w hr => ?_
  obtain ⟨hat, hfree⟩ := hr
  have hunknown : createError answer = some .unknownOutcome → ∀ operation,
      EnsureFailed worker cfg job ⟨.unknownOutcome, operation⟩ l w := fun hanswer operation =>
    ⟨fun hfalse => by simp [ProviderErrorKind.isTransient] at hfalse,
      fun _ => ⟨_, hat, fun hlast _ htransient => ⟨hanswer, htransient, hlast⟩⟩⟩
  match answer, hat, hfree, hunknown with
  | [], _, _, hunknown =>
      refine hnext l w _ fun e he => ?_
      obtain rfl := Except.error.inj he
      exact hunknown rfl _
  | .ok transfer :: _, _, _, _ => exact hnext l w _ (by simp)
  | .error .inputErrors :: _, hat, hfree, _ =>
      exact reconcileRefused_bind hat
        (hfree (by simp [createError]) (by simp [createError, raiseProvider])).2 hnext
  | .error .internalServerError :: _, _, _, hunknown =>
      refine hnext l w _ fun e he => ?_
      obtain rfl := Except.error.inj he
      exact hunknown rfl _
  | .error .unknownError :: _, _, _, hunknown =>
      refine hnext l w _ fun e he => ?_
      obtain rfl := Except.error.inj he
      exact hunknown rfl _
  | .error .validationError :: _, _, _, hunknown =>
      refine hnext l w _ fun e he => ?_
      obtain rfl := Except.error.inj he
      exact hunknown rfl _
  | .error .invalidSignatureError :: _, hat, hfree, _ =>
      refine hnext l w _ fun e he => ?_
      obtain rfl := Except.error.inj he
      have hfree := hfree (by simp [createError]) (by simp [createError, raiseProvider])
      exact ⟨fun _ => ⟨hat.backed, .inl hfree.2⟩,
        fun htrue => by simp [raiseProvider, ProviderErrorKind.isTransient] at htrue⟩
  | .error (.classified kind) :: _, hat, hfree, hunknown =>
      refine hnext l w _ fun e he => ?_
      obtain rfl := Except.error.inj he
      by_cases hkind : kind = .unknownOutcome
      · subst hkind
        exact hunknown rfl _
      · have hfree := hfree (by simp [createError])
          (by simpa [createError, raiseProvider] using hkind)
        obtain rfl : kind = .permanent := by
          simpa [createError, raiseProvider] using hfree.1
        exact ⟨fun _ => ⟨hat.backed, .inl hfree.2⟩,
          fun htrue => by simp [raiseProvider, ProviderErrorKind.isTransient] at htrue⟩

theorem ensureTransfer_bind {f : Except ProviderError ProviderTransfer → Service B} {live : Bool}
    (hat : At worker job .claimed l w)
    (hnext : ∀ l w r, (∀ e, r = .error e → EnsureFailed worker cfg job e l w) →
      Ensures (protocol worker cfg) worker (f r) Anything l w) :
    Ensures (protocol worker cfg) worker (ensureTransfer live (commandOf job) >>= f)
      Anything l w := by
  unfold ensureTransfer
  cases live with
  | false => exact .raised
  | true =>
      change Ensures _ _ ((findTransfer _ >>= _) >>= f) _ _ _
      rw [bind_assoc]
      refine findTransfer_bind False hat False.elim fun l w r hr => ?_
      match r, hr with
      | .error e, hr =>
          refine hnext l w _ fun e' he' => ?_
          obtain rfl := Except.error.inj he'
          exact ⟨fun hpermanent => hr.failing (.inr (.inr ⟨e, rfl, .inl hpermanent⟩)),
            fun _ => ⟨.lookedUp, hr.at_, final_lookedUp⟩⟩
      | .ok none, hr => exact createTransfer_bind hr.at_ (hr.free (.inr rfl)) hnext
      | .ok (some transfer), _ => exact hnext l w _ (by simp)

/-- A finish that fails no job, whatever is known. -/
theorem finish_ensures (op : TransferStoreOp) {f : JobFinish} (hop : finishOf op = some (job, f))
    (hstatus : f.status ≠ .permanentFailure) (result : WorkerResult) :
    Ensures (protocol worker cfg) worker
      (callStore (.transfers op) >>= fun _ => pure result) Anything l w :=
  store_ensures (triple_finish hop hstatus) (fun _ _ _ => anything_done) trivial

theorem finishSucceeded_ensures (transfer : ProviderTransfer) :
    Ensures (protocol worker cfg) worker (finishSucceeded job transfer time) Anything l w :=
  finish_ensures (.succeeded job transfer time) rfl (by simp [JobFinish.succeeded]) .succeeded

theorem scheduleRetry_ensures (code : String) :
    Ensures (protocol worker cfg) worker (scheduleRetry cfg job code time) Anything l w :=
  finish_ensures (.retry job code time (TransferWorker.backoff cfg job)) rfl
    (by simp [JobFinish.retry]) .retryScheduled

theorem scheduleReconciliation_ensures (code : String) :
    Ensures (protocol worker cfg) worker (scheduleReconciliation cfg job code time) Anything l w :=
  finish_ensures (.unknown job code time (TransferWorker.backoff cfg job)) rfl
    (by simp [JobFinish.unknown]) .reconciliationScheduled

theorem finishFailed_ensures (code : String) (h : Failing worker cfg job l w) :
    Ensures (protocol worker cfg) worker (finishFailed job code time) Anything l w :=
  store_ensures (triple_store (fun _ _ _ _ h hr => h.rely hr)
    fun _ _ h => .finish rfl fun _ => h)
    (fun _ _ _ => anything_done) h

theorem finalizeAfterLookup_ensures {live : Bool} (hat : At worker job stage l w)
    (hfinal : Final cfg job stage) (hlast : cfg.transferMaxAttempts ≤ job.attempts) :
    Ensures (protocol worker cfg) worker
      (finalizeAfterLookup (starkBankClient live) job (commandOf job) time) Anything l w := by
  refine findTransfer_bind False hat False.elim fun l w r hr => ?_
  match r, hr with
  | .ok (some transfer), _ => exact finishSucceeded_ensures transfer
  | .ok none, hr => exact finishFailed_ensures _ (hr.failing (.inr (.inl rfl)))
  | .error e, hr =>
      simp only
      split_ifs with htransient
      · exact finishFailed_ensures _ (hr.failing (.inr (.inr ⟨e, rfl, hfinal hlast e htransient⟩)))
      · exact .raised

theorem reconcileUnknown_ensures {live : Bool} (hat : At worker job .claimed l w)
    (hunknown : job.claimedFrom = some .unknown) :
    Ensures (protocol worker cfg) worker
      (reconcileUnknown cfg (starkBankClient live) job (commandOf job) time) Anything l w := by
  refine findTransfer_bind False hat False.elim fun l w r hr => ?_
  match r, hr with
  | .ok (some transfer), _ => exact finishSucceeded_ensures transfer
  | .ok none, hr =>
      simp only
      split_ifs
      · exact finishFailed_ensures _ (hr.failing (.inr (.inl rfl)))
      · exact scheduleRetry_ensures _
  | .error e, hr =>
      have hends : EndsJob cfg job e .claimed → Failing worker cfg job l w := fun hends =>
        hr.failing (.inr (.inr ⟨e, rfl, hends⟩))
      simp only
      split_ifs with htransient hlast
      · exact finishFailed_ensures _ (hends (.inr ⟨hunknown, hlast⟩))
      · exact scheduleReconciliation_ensures _
      · exact finishFailed_ensures _ (hends (.inl (by simpa using htransient)))

theorem processClaimed_ensures {live : Bool} (hat : At worker job .claimed l w) :
    Ensures (protocol worker cfg) worker
      (processClaimed cfg (starkBankClient live) job time) Anything l w := by
  unfold processClaimed
  simp only
  split_ifs with hunknown
  · exact reconcileUnknown_ensures hat hunknown
  · refine ensureTransfer_bind hat fun l w r hr => ?_
    match r, hr with
    | .ok transfer, _ => exact finishSucceeded_ensures transfer
    | .error e, hr =>
        obtain ⟨hpermanent, htransient⟩ := hr e rfl
        have htimeout : e.kind.isTimeout = true → e.kind.isTransient = true := by
          cases e.kind <;> simp [ProviderErrorKind.isTimeout, ProviderErrorKind.isTransient]
        have hfinal : e.kind.isTransient = true → cfg.transferMaxAttempts ≤ job.attempts →
            Ensures (protocol worker cfg) worker
              (finalizeAfterLookup (starkBankClient live) job (commandOf job) time)
              Anything l w := by
          intro h hlast
          obtain ⟨stage, hat, hfinal⟩ := htransient h
          exact finalizeAfterLookup_ensures hat hfinal hlast
        simp only [handleTimeout, handleTransient, handlePermanent]
        split_ifs with ht hlast h hlast
        · exact hfinal (htimeout ht) hlast
        · exact scheduleReconciliation_ensures _
        · exact hfinal h hlast
        · exact scheduleRetry_ensures _
        · exact finishFailed_ensures _ (hpermanent (by simpa using h))

/-- What a claim returns is a row of the table it leaves. -/
theorem triple_claim (claim : JobClaim) :
    (protocol worker cfg).Triple worker (fun _ _ => True) (.store (.transfers (.claim claim)))
      fun r l w => ∀ job, r = .ok (some job) → At worker job .claimed l w := by
  refine triple_of (fun _ _ _ _ _ _ => trivial) (fun _ _ _ => .claim claim)
    fun l w r w' _ hi he => ?_
  obtain ⟨hanswer, rfl⟩ := he
  refine ⟨(Inv.stored hi _).1, fun job hjob => ⟨?_, ?_, ?_⟩⟩
  · exact TransferOnce.claim_backed hi.consistent claim (hanswer.symm.trans hjob)
  · rw [own_cons_self, List.findSome?_cons, hjob]
    rfl
  · rw [own_cons_self, List.findSome?_cons]
    rfl

theorem triple_now {fact : WorkerLog ι → World → Prop}
    (hstable : ∀ l w l' w', fact l w → Rely worker l w l' w' → fact l' w')
    (hlog : ∀ l w time, fact l w → fact (⟨worker, .now, time⟩ :: l) w) :
    (protocol worker cfg).Triple worker fact .now fun _ l w => fact l w := by
  refine triple_of hstable (fun _ _ _ => trivial) fun l w time w' hfact hi he => ?_
  obtain ⟨-, rfl⟩ := he
  exact ⟨hi, hlog l w' time hfact⟩

theorem processOne_ensures :
    Ensures (protocol worker cfg) worker (processOne cfg) Anything l w := by
  unfold processOne
  split_ifs
  · change Ensures _ _ ((ExternalCalls.now >>= _) >>= _) _ _ _
    rw [bind_assoc]
    refine .call trivial (triple_now (fun _ _ _ _ _ _ => trivial) fun _ _ _ _ => trivial)
      fun time l w _ => ?_
    refine .call trivial (triple_claim _) fun r l w hclaimed => ?_
    match r, hclaimed with
    | .error e, _ => exact .raised
    | .ok none, _ => exact anything_done
    | .ok (some job), hclaimed =>
        have hlog : ∀ l w time, At worker job .claimed l w →
            At worker job .claimed (⟨worker, .now, time⟩ :: l) w := by
          intro l w time hat
          refine ⟨hat.backed, ?_, ?_⟩
          · rw [own_cons_self, List.findSome?_cons]
            exact hat.job
          · rw [own_cons_self, List.findSome?_cons]
            exact hat.stage
        refine .call (hclaimed job rfl) (triple_now (fun _ _ _ _ hat hr => hat.rely hr) hlog)
          fun time l w hat => ?_
        exact processClaimed_ensures hat
  · exact anything_done

/-! ### Deliveries -/

/-- A call of a delivery disturbs nothing that the worker counts on. -/
theorem delivery_triple {i : ι} (hi : i ≠ worker) {call : Call}
    (hcall : call = .now ∨ ∃ op, call = .store (.events op)) :
    (protocol worker cfg).Triple i (fun _ _ => True) call fun _ _ _ => True where
  stable _ _ _ _ _ _ _ := trivial
  demand l w _ _ := by
    rcases hcall with rfl | ⟨op, rfl⟩
    · trivial
    · exact .events op
  keeps l w r w' _ hinv he := by
    have hown : own worker (⟨i, call, r⟩ :: l) = own worker l := own_cons_of_ne hi call r l
    rcases hcall with rfl | ⟨op, rfl⟩
    · obtain ⟨-, rfl⟩ := he
      exact ⟨hinv, fun _ _ _ => ⟨hown, fun j hj => ⟨j, hj, .refl j⟩, fun _ _ h => h⟩⟩
    · obtain ⟨-, rfl⟩ := he
      obtain ⟨hinv', hjobs⟩ := Inv.stored hinv (.events op)
      exact ⟨hinv', fun _ _ _ => ⟨hown, hjobs, fun _ _ h => h⟩⟩
  result _ _ _ _ _ _ _ := trivial

theorem deliveryRules {i : ι} (hi : i ≠ worker) (jobId : TransferJobId) (delivery : Delivery) :
    DeliveryRules (protocol worker cfg) i jobId delivery (fun _ _ => True)
      (fun _ _ _ => True) where
  now := delivery_triple hi (.inl rfl)
  record _ _ _ _ := delivery_triple hi (.inr ⟨_, rfl⟩)
  ignored _ _ _ _ := delivery_triple hi (.inr ⟨_, rfl⟩)

theorem kept : (protocol worker cfg).Kept Unconditionally fun _ => Anything where
  toSound := sound
  begins := by
    rintro l w i p - - hadmitted
    cases hadmitted with
    | worker => exact discard_ensures sound processOne_ensures
    | delivery jobId delivery hi =>
        exact discard_ensures sound ((deliveryRules hi jobId delivery).receive_ensures trivial)

/-! ### Every run -/

/-- A transaction that moves a job to permanent failure. -/
theorem Issued.moved {op : StoreOp} (hop : Issued worker cfg l w op) (hinv : Inv w)
    {j : TransferJobRow} (hj : j ∈ (op.apply w.db).2 transferJobs)
    (hfailed : j.status = .permanentFailure)
    (hbefore : ∀ j₀ ∈ w.db transferJobs, j₀.id = j.id → j₀.status ≠ .permanentFailure) :
    Free w j.externalId ∨ ∃ job, job.id = j.id ∧ GaveUp worker cfg l job := by
  have hold : j ∉ w.db transferJobs := fun hj => hbefore j hj rfl hfailed
  cases hop with
  | claim claim =>
      rcases claim_apply hinv.consistent claim with ⟨-, hnone⟩ | ⟨row, -, -, hsome⟩
      · rw [hnone] at hj
        exact absurd hj hold
      · rw [hsome] at hj
        change j ∈ (w.db.set transferJobs _) transferJobs at hj
        rw [Database.set_self] at hj
        rcases mem_assignWhere.mp hj with ⟨j₀, -, -, rfl⟩ | ⟨hj, -⟩
        · simp [claimed] at hfailed
        · exact absurd hj hold
  | @finish op job f hfinish hfailing =>
      rw [(finishOf_apply hfinish w.db).2, finish_apply] at hj
      split_ifs at hj
      · change j ∈ (w.db.set transferJobs _) transferJobs at hj
        rw [Database.set_self] at hj
        rcases mem_assignWhere.mp hj with ⟨j₀, hj₀, hheld, rfl⟩ | ⟨hj, -⟩
        · obtain ⟨⟨j₁, hj₁, hid, hinvoice, hnet⟩, hfree⟩ := hfailing hfailed
          have hsame : j₀ = j₁ := by
            refine (hinv.consistent transferJobs).eq_of_key hj₀ hj₁ ?_
            simp only [heldBy, Bool.and_eq_true, beq_iff_eq] at hheld
            exact hheld.1.1.trans hid.symm
          have hext : (f.apply j₀).externalId = (commandOf job).externalId := by
            change j₀.externalId = _
            rw [hsame, hinv.keys j₁ hj₁, hinvoice, hnet]
            rfl
          rw [hext]
          exact hfree.imp id fun hgave => ⟨job, hsame ▸ hid.symm, hgave⟩
        · exact absurd hj hold
      · exact absurd hj hold
  | events op =>
      cases op with
      | recordIgnoredWorkspace r =>
          rw [recordIgnoredWorkspace_apply_jobs r w.db] at hj
          exact absurd hj hold
      | record jobId r =>
          have hjobs := record_apply_jobs jobId r w.db
          generalize ((StoreOp.events (.record jobId r)).apply w.db).2 transferJobs = jobs' at *
          cases hjobs with
          | same => exact absurd hj hold
          | queued =>
              rcases List.mem_append.mp hj with hj | hj
              · exact absurd hj hold
              · rw [List.mem_singleton.mp hj] at hfailed
                simp [newJob] at hfailed
          | updated =>
              rcases mem_assignWhere.mp hj with ⟨j₀, hj₀, -, rfl⟩ | ⟨hj, -⟩
              · exact absurd hfailed (hbefore j₀ hj₀ rfl)
              · exact absurd hj hold

/-- Where a step moves a job to permanent failure, the provider holds no transfer for it, or
the worker gave up on its last lookup. -/
theorem failed_free_or_gaveUp {w : World} (hc : metadata.Consistent w.db)
    (hkeys : ∀ j ∈ w.db transferJobs,
      j.externalId = (buildTransferCommand j.invoiceId j.netAmount).externalId)
    {c d : Config ι Call Call.Answer Failure Unit World}
    (hruns : Runs (system worker cfg) (.initial w) c) (hstep : Step (system worker cfg) c d)
    {j : TransferJobRow} (hj : j ∈ d.state.db transferJobs)
    (hfailed : j.status = .permanentFailure)
    (hbefore : ∀ j₀ ∈ c.state.db transferJobs, j₀.id = j.id → j₀.status ≠ .permanentFailure) :
    Free d.state j.externalId ∨ ∃ job, job.id = j.id ∧ GaveUp worker cfg c.log job := by
  have hstart : Inv w := ⟨hc, hkeys⟩
  have hinv : Inv c.state := kept.inv (P := protocol worker cfg) hstart hruns
  have hsame : j ∉ c.state.db transferJobs := fun hj => hbefore j hj rfl hfailed
  cases hstep with
  | begin => exact absurd hj hsame
  | drift hd => exact absurd (hd.1.mem.mp hj) hsame
  | die _ hd =>
      obtain rfl := hd
      exact absurd hj hsame
  | @call i call next r w' hi he =>
      have hdemand := kept.demand (P := protocol worker cfg) hstart hruns hi
      cases call with
      | store op =>
          obtain ⟨-, rfl⟩ := he
          exact Issued.moved hdemand hinv hj hfailed hbefore
      | now =>
          obtain ⟨-, rfl⟩ := he
          exact absurd hj hsame
      | invoiceCreate request =>
          obtain ⟨held, -, rfl⟩ := he
          exact absurd hj hsame
      | invoiceQuery limit tags =>
          obtain ⟨-, rfl⟩ := he
          exact absurd hj hsame
      | transferCreate request =>
          obtain ⟨held, -, rfl⟩ := he
          exact absurd hj hsame
      | transferQuery limit tags =>
          obtain ⟨-, rfl⟩ := he
          exact absurd hj hsame

end
end

/-! ### The last attempt of a job -/

/-- The command for the invoice of the run. -/
def command : TransferCommand := buildTransferCommand "i" 4950

/-- Only unknown outcomes are lost, a refusal is permanent, and a lookup that is answered lists
all that is held. -/
def lastRules : ScriptRules ℕ where
  lost error := (raiseProvider error "create_transfer" true).kind = .unknownOutcome
  refused error := (raiseProvider error "create_transfer" true).kind = .permanent
  listed held limit tags := held.length ≤ limit && tags == [command.tag] &&
    held.all fun t => t.request.tags == [command.tag]

theorem honestInvoices : HonestInvoices lastRules provider :=
  ⟨fun _ _ _ _ => trivial, fun _ _ _ _ _ _ => trivial, fun _ _ _ => trivial,
    fun _ _ _ => trivial, fun _ _ _ _ => trivial⟩

/-- An answer without the external id does not list it. -/
theorem firstWithExternalId_none {externalId : ExternalId} {items : SdkAnswer SdkTransfer}
    (h : firstWithExternalId externalId items = .ok none) :
    ∀ item, .ok item ∈ items → item.externalId ≠ externalId := by
  induction items with
  | nil => simp
  | cons first items ih =>
      cases first with
      | error e => simp [firstWithExternalId] at h
      | ok first =>
          unfold firstWithExternalId at h
          split_ifs at h with hext
          · simp at h
          · intro item hitem
            rcases List.mem_cons.mp hitem with hitem | hitem
            · obtain rfl := Except.ok.inj hitem
              exact hext
            · exact ih h item hitem

theorem listedTransfers_truthful {w : World} {limit : ℕ} {tags : List String}
    (h : lastRules.listed w.transfers limit tags = true) (externalId : ExternalId) :
    Truthful w externalId
      (firstWithExternalId externalId (listedTransfers w.transfers limit tags)) := by
  simp only [lastRules, Bool.and_eq_true, decide_eq_true_eq, beq_iff_eq, List.all_eq_true] at h
  obtain ⟨⟨hlength, rfl⟩, htags⟩ := h
  generalize hr : firstWithExternalId externalId _ = r
  match r, hr with
  | .error e, _ => trivial
  | .ok (some t), hr =>
      obtain ⟨item, hitem, hext, rfl⟩ := firstWithExternalId_mem hr
      obtain ⟨x, hx, heq⟩ := List.mem_map.mp hitem
      obtain rfl := Except.ok.inj heq
      exact ⟨x, (List.mem_filter.mp (List.mem_of_mem_take hx)).1, hext, rfl⟩
  | .ok none, hr =>
      intro t ht hext
      refine firstWithExternalId_none hr ⟨t.id, t.request.externalId, t.status⟩ ?_ hext
      refine List.mem_map.mpr ⟨t, ?_, rfl⟩
      rw [List.take_of_length_le ((List.length_filter_le _ _).trans hlength)]
      exact List.mem_filter.mpr ⟨ht, by simp [htags t ht]⟩

theorem honestTransfers : HonestTransfers lastRules provider where
  created _ _ _ _ _ := .created
  lost _ _ _ _ _ _ herror := .lost (congrArg some (of_decide_eq_true herror))
  refused _ _ _ := .refused rfl
  failed _ _ _ herror := .refused (congrArg some (of_decide_eq_true herror))
  listed _ _ _ hlisted _ _ _ := listedTransfers_truthful hlisted _
  unlisted _ _ _ _ _ _ _ := trivial

theorem answer_performs (l : WorkerLog ℕ) (w : World) (i : ℕ) (call : Call) (script : Script)
    (r : call.Answer × World) (h : answer lastRules l w i call script = some r) :
    Performs provider (fun _ => True) w call r.1 r.2 :=
  (scripted_performs honestInvoices honestTransfers h).mono fun _ _ => trivial

def onlyAttempt : WorkerSettings := { transferMaxAttempts := 1 }

/-- A credit, and the worker up to its last lookup. -/
def attempt (created found : Script) : List (ScriptedMove ℕ) :=
  [.begin 1 (receive "j" creditDelivery).discard, .call 1 (.clock 0), .call 1 .commit,
    .begin 0 (processOne onlyAttempt).discard, .call 0 (.clock 1), .call 0 .commit,
    .call 0 (.clock 1), .call 0 .lookup, .call 0 created, .call 0 found]

theorem attempt_allowed (created found : Script) :
    ∀ m ∈ attempt created found, m.Allowed (system 0 onlyAttempt) := by
  have hworker : Admitted 0 onlyAttempt 0 (processOne onlyAttempt).discard := .worker
  have hdelivery : Admitted 0 onlyAttempt 1 (receive "j" creditDelivery).discard :=
    .delivery "j" creditDelivery (by decide)
  simp [attempt, Move.Allowed, system, hworker, hdelivery]

/-- The job before and after the transaction that follows the attempt, and the external ids
that the provider holds. -/
def attempted (created found : Script) :
    Option (List TransferStatus × List (TransferStatus × ExternalId) × List ExternalId) := do
  let c ← playScript lastRules creditWorld (attempt created found)
  let d ← play (answer lastRules) c (.call 0 .commit)
  pure ((c.state.db transferJobs).map TransferJobRow.status,
    (d.state.db transferJobs).map fun j => (j.status, j.externalId),
    d.state.transfers.map fun t => t.request.externalId)

/-- A run whose last step moves the job to permanent failure. -/
theorem attempted_fails {created found : Script} {externalId : ExternalId}
    {held : List ExternalId} (h : attempted created found =
      some ([.processing], [(.permanentFailure, externalId)], held)) :
    ∃ c d j, Runs (system 0 onlyAttempt) (.initial creditWorld) c ∧
      Step (system 0 onlyAttempt) c d ∧ j ∈ d.state.db transferJobs ∧
      j.status = .permanentFailure ∧
      (∀ j₀ ∈ c.state.db transferJobs, j₀.id = j.id → j₀.status ≠ .permanentFailure) ∧
      j.externalId = externalId ∧ d.state.transfers.map (fun t => t.request.externalId) = held := by
  obtain ⟨c, hc, h⟩ := Option.bind_eq_some_iff.mp h
  obtain ⟨d, hd, h⟩ := Option.bind_eq_some_iff.mp h
  obtain ⟨hbefore, h⟩ := Prod.mk.inj (Option.some.inj h)
  obtain ⟨hafter, hheld⟩ := Prod.mk.inj h
  obtain ⟨j, hj, hstatus⟩ := List.map_eq_singleton_iff.mp hafter
  obtain ⟨hfailed, hext⟩ := Prod.mk.inj hstatus
  refine ⟨c, d, j, ?_, ?_, hj ▸ List.mem_singleton.mpr rfl, hfailed, fun j₀ hj₀ _ => ?_, hext,
    hheld⟩
  · exact playScript_runs honestInvoices honestTransfers
      (fun _ _ _ _ _ _ _ h => h.mono fun _ _ => trivial) (attempt_allowed _ _) hc
  · have hmove : (Move.call 0 .commit : ScriptedMove ℕ).Allowed (system 0 onlyAttempt) := trivial
    exact play_step answer_performs hmove hd
  · have hmem := List.mem_map_of_mem (f := TransferJobRow.status) hj₀
    rw [hbefore] at hmem
    rw [List.mem_singleton.mp hmem]
    decide

/-- The creation is refused, and nothing is held when the job fails. -/
theorem failed_free_or_gaveUp_refused : ∃ c d j,
    Runs (system 0 onlyAttempt) (.initial creditWorld) c ∧ Step (system 0 onlyAttempt) c d ∧
      j ∈ d.state.db transferJobs ∧ j.status = .permanentFailure ∧
        (Free d.state j.externalId ∨
          ∃ job, job.id = j.id ∧ GaveUp 0 onlyAttempt c.log job) := by
  have hplay : attempted (.failed .inputErrors) .lookup =
      some ([.processing], [(.permanentFailure, "trial-transfer-i")], []) := by decide
  obtain ⟨c, d, j, hruns, hstep, hj, hfailed, hbefore, -⟩ := attempted_fails hplay
  exact ⟨c, d, j, hruns, hstep, hj, hfailed, failed_free_or_gaveUp (by decide)
    (by simp [creditWorld, Database.set, emptyDatabase]) hruns hstep hj hfailed hbefore⟩

/-- The answer to the creation is lost, and the final lookup raises a transient error. -/
theorem failed_while_held : ∃ c d j,
    Runs (system 0 onlyAttempt) (.initial creditWorld) c ∧ Step (system 0 onlyAttempt) c d ∧
      j ∈ d.state.db transferJobs ∧ j.status = .permanentFailure ∧
        (∀ j₀ ∈ c.state.db transferJobs, j₀.id = j.id → j₀.status ≠ .permanentFailure) ∧
        ¬ Free d.state j.externalId := by
  have hplay : attempted (.lost "t" .unknownError) (.failed .unknownError) =
      some ([.processing], [(.permanentFailure, "trial-transfer-i")], ["trial-transfer-i"]) := by
    decide
  obtain ⟨c, d, j, hruns, hstep, hj, hfailed, hbefore, hext, hheld⟩ := attempted_fails hplay
  obtain ⟨t, ht, htext⟩ := List.map_eq_singleton_iff.mp hheld
  refine ⟨c, d, j, hruns, hstep, hj, hfailed, hbefore, fun hfree => ?_⟩
  exact hfree t (ht ▸ List.mem_singleton.mpr rfl) (htext.trans hext.symm)

end StarkbankTrial.FailedTransfers
