import StarkbankTrial.Services
import StarkbankTrial.TransferWorker

/-!
# The rules for workers and deliveries

One proof follows the branches of `process_one` for every protocol, and one those of
`receive`. What remains to be shown about a protocol are its single calls.
-/
namespace StarkbankTrial.WorkerRules
open Domain InteractivePrograms InterleavedRuns ExternalCalls ProviderClient EventRecording
open TransferWorker Services

variable {ι S A : Type} {P : Protocol ι Call Call.Answer Failure A S} {i : ι} {B : Type}

/-- Nothing is asked of how an invocation ends. -/
abbrev Anything : Except Failure B → Log ι Call Call.Answer → S → Prop :=
  Returns fun _ _ _ => True

/-- What holds wherever an invocation ends holds when its result is dropped. -/
theorem discard_ensures (hP : P.Sound) {p : Service B} {l : Log ι Call Call.Answer} {s : S}
    {fact : Log ι Call Call.Answer → S → Prop} (h : Ensures P i p (Ends (fun _ => fact) fact) l s)
    (hfact : P.Stable i fact := by exact fun _ _ _ _ _ _ _ => trivial) :
    Ensures P i p.discard (Ends (fun _ => fact) fact) l s :=
  .seq hP h (fun _ _ _ hr => .returned hfact hr) hfact

/-- The command that is rebuilt from the claimed job. -/
def commandOf (job : TransferJob) : TransferCommand :=
  buildTransferCommand job.invoiceId job.netAmount

/-- What the calls for one claimed job must keep: `fact` holds from the claim on, and
`good` holds of every transfer that the provider returned. -/
structure ClaimedRules (P : Protocol ι Call Call.Answer Failure A S) (i : ι)
    (cfg : WorkerSettings) (job : TransferJob) (time : ℤ)
    (fact : Log ι Call Call.Answer → S → Prop)
    (good : ProviderTransfer → Log ι Call Call.Answer → S → Prop) : Prop where
  query : P.Triple i fact (.transferQuery 10 [(commandOf job).tag]) fun answer l s =>
    fact l s ∧ ∀ t, firstWithExternalId (commandOf job).externalId answer = .ok (some t) →
      good t l s
  create : P.Triple i fact (.transferCreate (transferRequest (commandOf job)))
    fun answer l s => fact l s ∧ ∀ t, answer.head? = some (.ok t) → good (providerTransfer t) l s
  succeeded : ∀ t, P.Triple i (fun l s => fact l s ∧ good t l s)
    (.store (.transfers (.succeeded job t time))) fun _ _ _ => True
  failed : ∀ code, P.Triple i fact (.store (.transfers (.failed job code time)))
    fun _ _ _ => True
  retry : ∀ code, P.Triple i fact
    (.store (.transfers (.retry job code time (TransferWorker.backoff cfg job))))
    fun _ _ _ => True
  unknown : ∀ code, P.Triple i fact
    (.store (.transfers (.unknown job code time (TransferWorker.backoff cfg job))))
    fun _ _ _ => True

section
variable {cfg : WorkerSettings} {job : TransferJob} {time : ℤ}
variable {fact : Log ι Call Call.Answer → S → Prop}
variable {good : ProviderTransfer → Log ι Call Call.Answer → S → Prop}
variable {l : Log ι Call Call.Answer} {s : S}

theorem anything_done {b : B} : Ensures P i (.done b) Anything l s := fun _ _ _ _ => trivial

/-- A transaction whose result is not used. -/
theorem store_ensures {op : StoreOperations.StoreOp} {f : op.Result → Service B}
    (hop : P.Triple i fact (.store op) fun _ _ _ => True)
    (hf : ∀ r l s, Ensures P i (f r) Anything l s) (hfact : fact l s) :
    Ensures P i (callStore op >>= f) Anything l s := by
  refine .call hfact hop fun r l s _ => ?_
  cases r with
  | ok r => exact hf r l s
  | error e => exact .raised

namespace ClaimedRules
variable (h : ClaimedRules P i cfg job time fact good)
include h

theorem findTransfer_bind {f : Except ProviderError (Option ProviderTransfer) → Service B}
    (hfact : fact l s)
    (hnext : ∀ l s r, fact l s → (∀ t, r = .ok (some t) → good t l s) →
      Ensures P i (f r) Anything l s) :
    Ensures P i (findTransfer (commandOf job) >>= f) Anything l s :=
  .call hfact h.query fun _ _ _ hr => hnext _ _ _ hr.1 hr.2

theorem createTransfer_bind {f : Except ProviderError ProviderTransfer → Service B}
    (hfact : fact l s)
    (hnext : ∀ l s r, fact l s → (∀ t, r = .ok t → good t l s) →
      Ensures P i (f r) Anything l s) :
    Ensures P i (createTransfer (commandOf job) >>= f) Anything l s := by
  refine .call hfact h.create fun answer l s hr => ?_
  obtain ⟨hfact, hgood⟩ := hr
  match answer, hgood with
  | [], _ => exact hnext _ _ _ hfact (by simp)
  | .ok transfer :: _, hgood =>
      refine hnext _ _ _ hfact fun t ht => ?_
      obtain rfl := Except.ok.inj ht
      exact hgood transfer rfl
  | .error .inputErrors :: _, _ =>
      -- the refusal is looked up before it becomes an error
      change Ensures _ _ (reconcileRefused _ >>= f) _ _ _
      unfold reconcileRefused
      rw [bind_assoc]
      refine h.findTransfer_bind hfact fun l s r hfact hgood => ?_
      match r, hgood with
      | .error e, _ => exact hnext _ _ _ hfact (by simp)
      | .ok none, _ => exact hnext _ _ _ hfact (by simp)
      | .ok (some transfer), hgood =>
          refine hnext _ _ _ hfact fun t ht => ?_
          obtain rfl := Except.ok.inj ht
          exact hgood transfer rfl
  | .error .internalServerError :: _, _ => exact hnext _ _ _ hfact (by simp)
  | .error .unknownError :: _, _ => exact hnext _ _ _ hfact (by simp)
  | .error .invalidSignatureError :: _, _ => exact hnext _ _ _ hfact (by simp)
  | .error .validationError :: _, _ => exact hnext _ _ _ hfact (by simp)
  | .error (.classified _) :: _, _ => exact hnext _ _ _ hfact (by simp)

theorem ensureTransfer_bind {f : Except ProviderError ProviderTransfer → Service B}
    {live : Bool} (hfact : fact l s)
    (hnext : ∀ l s r, fact l s → (∀ t, r = .ok t → good t l s) →
      Ensures P i (f r) Anything l s) :
    Ensures P i (ensureTransfer live (commandOf job) >>= f) Anything l s := by
  unfold ensureTransfer
  cases live with
  | false => exact .raised
  | true =>
      change Ensures _ _ ((findTransfer _ >>= _) >>= f) _ _ _
      rw [bind_assoc]
      refine h.findTransfer_bind hfact fun l s r hfact hgood => ?_
      match r, hgood with
      | .error e, _ => exact hnext _ _ _ hfact (by simp)
      | .ok none, _ => exact h.createTransfer_bind hfact hnext
      | .ok (some transfer), hgood =>
          refine hnext _ _ _ hfact fun t ht => ?_
          obtain rfl := Except.ok.inj ht
          exact hgood transfer rfl

theorem finishSucceeded_ensures {t : ProviderTransfer} (hfact : fact l s) (hgood : good t l s) :
    Ensures P i (finishSucceeded job t time) Anything l s :=
  store_ensures (h.succeeded t) (fun _ _ _ => anything_done) ⟨hfact, hgood⟩

theorem finishFailed_ensures (code : String) (hfact : fact l s) :
    Ensures P i (finishFailed job code time) Anything l s :=
  store_ensures (h.failed code) (fun _ _ _ => anything_done) hfact

theorem scheduleRetry_ensures (code : String) (hfact : fact l s) :
    Ensures P i (scheduleRetry cfg job code time) Anything l s :=
  store_ensures (h.retry code) (fun _ _ _ => anything_done) hfact

theorem scheduleReconciliation_ensures (code : String) (hfact : fact l s) :
    Ensures P i (scheduleReconciliation cfg job code time) Anything l s :=
  store_ensures (h.unknown code) (fun _ _ _ => anything_done) hfact

theorem finalizeAfterLookup_ensures {live : Bool} (hfact : fact l s) :
    Ensures P i (finalizeAfterLookup (starkBankClient live) job (commandOf job) time) Anything l s := by
  refine h.findTransfer_bind hfact fun l s r hfact hgood => ?_
  match r, hgood with
  | .ok (some transfer), hgood => exact h.finishSucceeded_ensures hfact (hgood transfer rfl)
  | .ok none, _ => exact h.finishFailed_ensures _ hfact
  | .error e, _ =>
      simp only
      split_ifs
      · exact h.finishFailed_ensures _ hfact
      · exact .raised

theorem reconcileUnknown_ensures {live : Bool} (hfact : fact l s) :
    Ensures P i (reconcileUnknown cfg (starkBankClient live) job (commandOf job) time) Anything l s := by
  refine h.findTransfer_bind hfact fun l s r hfact hgood => ?_
  match r, hgood with
  | .ok (some transfer), hgood => exact h.finishSucceeded_ensures hfact (hgood transfer rfl)
  | .ok none, _ =>
      simp only
      split_ifs
      · exact h.finishFailed_ensures _ hfact
      · exact h.scheduleRetry_ensures _ hfact
  | .error e, _ =>
      simp only
      split_ifs
      · exact h.finishFailed_ensures _ hfact
      · exact h.scheduleReconciliation_ensures _ hfact
      · exact h.finishFailed_ensures _ hfact

theorem processClaimed_ensures {live : Bool} (hfact : fact l s) :
    Ensures P i (processClaimed cfg (starkBankClient live) job time) Anything l s := by
  unfold processClaimed
  simp only
  split_ifs
  · exact h.reconcileUnknown_ensures hfact
  · refine h.ensureTransfer_bind hfact fun l s r hfact hgood => ?_
    match r, hgood with
    | .ok transfer, hgood => exact h.finishSucceeded_ensures hfact (hgood transfer rfl)
    | .error e, _ =>
        simp only [handleTimeout, handleTransient, handlePermanent]
        split_ifs
        · exact h.finalizeAfterLookup_ensures hfact
        · exact h.scheduleReconciliation_ensures _ hfact
        · exact h.finalizeAfterLookup_ensures hfact
        · exact h.scheduleRetry_ensures _ hfact
        · exact h.finishFailed_ensures _ hfact

end ClaimedRules
end

/-- The calls before there is a job, with what they establish for the rest. -/
structure ProcessRules (P : Protocol ι Call Call.Answer Failure A S) (i : ι)
    (cfg : WorkerSettings) (start : Log ι Call Call.Answer → S → Prop)
    (read : ℤ → Log ι Call Call.Answer → S → Prop)
    (held : TransferJob → Log ι Call Call.Answer → S → Prop)
    (fact : TransferJob → ℤ → Log ι Call Call.Answer → S → Prop)
    (good : TransferJob → ProviderTransfer → Log ι Call Call.Answer → S → Prop) : Prop where
  now : P.Triple i start .now fun time => read time
  claim : ∀ time, P.Triple i (read time)
    (.store (.transfers (.claim ⟨time, time + seconds cfg.leaseSeconds⟩)))
    fun r l s => ∀ job, r = .ok (some job) → held job l s
  nowAgain : ∀ job, P.Triple i (held job) .now fun time => fact job time
  claimed : ∀ job time, ClaimedRules P i cfg job time (fact job time) (good job)

theorem ProcessRules.processOne_ensures {cfg : WorkerSettings}
    {start : Log ι Call Call.Answer → S → Prop}
    {read : ℤ → Log ι Call Call.Answer → S → Prop}
    {held : TransferJob → Log ι Call Call.Answer → S → Prop}
    {fact : TransferJob → ℤ → Log ι Call Call.Answer → S → Prop}
    {good : TransferJob → ProviderTransfer → Log ι Call Call.Answer → S → Prop}
    (h : ProcessRules P i cfg start read held fact good) {l : Log ι Call Call.Answer} {s : S}
    (hs : start l s) : Ensures P i (processOne cfg) Anything l s := by
  unfold processOne
  split_ifs
  · change Ensures _ _ ((ExternalCalls.now >>= _) >>= _) _ _ _
    rw [bind_assoc]
    refine .call hs h.now fun time l s hread => ?_
    refine .call hread (h.claim time) fun r l s hclaimed => ?_
    match r, hclaimed with
    | .error e, _ => exact .raised
    | .ok none, _ => exact anything_done
    | .ok (some job), hclaimed =>
        refine .call (hclaimed job rfl) (h.nowAgain job) fun time l s hfact => ?_
        exact (h.claimed job time).processClaimed_ensures hfact
  · exact anything_done

/-! ### Deliveries -/

structure DeliveryRules (P : Protocol ι Call Call.Answer Failure A S) (i : ι)
    (jobId : TransferJobId) (delivery : Delivery) (start : Log ι Call Call.Answer → S → Prop)
    (received : ℤ → Log ι Call Call.Answer → S → Prop) : Prop where
  now : P.Triple i start .now fun time => received time
  record : ∀ event payloadHash time, delivery = .verified event payloadHash →
    P.Triple i (received time)
      (.store (.events (.record jobId (receivedRecord event payloadHash time))))
      fun _ _ _ => True
  ignored : ∀ event payloadHash time, delivery = .unexpectedWorkspace event payloadHash →
    P.Triple i (received time)
      (.store (.events (.recordIgnoredWorkspace (foreignRecord event payloadHash time))))
      fun _ _ _ => True

theorem DeliveryRules.receive_ensures {jobId : TransferJobId} {delivery : Delivery}
    {start : Log ι Call Call.Answer → S → Prop}
    {received : ℤ → Log ι Call Call.Answer → S → Prop}
    (h : DeliveryRules P i jobId delivery start received) {l : Log ι Call Call.Answer} {s : S}
    (hs : start l s) : Ensures P i (receive jobId delivery) Anything l s := by
  cases delivery with
  | verified event payloadHash =>
      refine .call hs h.now fun time l s hreceived => ?_
      change Ensures _ _ (callStore _) _ _ _
      rw [← bind_pure (callStore _)]
      exact store_ensures (h.record event payloadHash time rfl) (fun _ _ _ => anything_done)
        hreceived
  | unexpectedWorkspace event payloadHash =>
      refine .call hs h.now fun time l s hreceived => ?_
      exact store_ensures (h.ignored event payloadHash time rfl) (fun _ _ _ => .raised) hreceived

end StarkbankTrial.WorkerRules
