import StarkbankTrial.WorkerRules

/-!
# The rules for ticks, reconcile passes and smoke batches

One proof follows the branches of each service for every protocol. What remains to be
shown about a protocol are its single calls. The facts of the loops are about the
drafts that remain.
-/
namespace StarkbankTrial.TrialRules
open Domain InteractivePrograms InterleavedRuns ExternalCalls ProviderClient StoreOperations
open InvoiceRecording Services WorkerRules

variable {ι S A : Type} {P : Protocol ι Call Call.Answer Failure A S} {i : ι} {B : Type}
variable {l : Log ι Call Call.Answer} {s : S}

/-- A fact about a log and a state. -/
abbrev Fact (ι S : Type) := Log ι Call Call.Answer → S → Prop

/-- Nothing is known. -/
abbrev Anywhere : Fact ι S := fun _ _ => True

theorem anywhere_stable : P.Stable i Anywhere := fun _ _ _ _ _ _ _ => trivial

/-- What does not depend on the state stays so. -/
theorem stable_and {p : Prop} {fact : Fact ι S} (h : P.Stable i fact) :
    P.Stable i fun l s => p ∧ fact l s :=
  fun l s l' s' hw hr hi => ⟨hw.1, h l s l' s' hw.2 hr hi⟩

/-- A transaction, with the fact of its return and the fact of its failure. -/
theorem store_bind {pre fails : Fact ι S} {op : StoreOp} {post : op.Result → Fact ι S}
    {f : op.Result → Service B} {fact : B → Fact ι S}
    (hop : P.Triple i pre (.store op) (Ends post fails)) (hpre : pre l s)
    (hf : ∀ v l s, post v l s → Ensures P i (f v) (Ends fact fails) l s)
    (hfails : P.Stable i fails := by exact fun _ _ _ _ _ _ _ => trivial) :
    Ensures P i (callStore op >>= f) (Ends fact fails) l s := by
  refine .call hpre hop fun r l s hr => ?_
  cases r with
  | ok v => exact hf v l s hr
  | error e => exact .raised hr hfails

/-! ### Starting a trial -/

theorem buildSchedule_length {startAt : DateTime} {counts : List ℤ} {schedule : List ScheduleSlot}
    (h : buildSchedule startAt counts = .ok schedule) : schedule.length = 8 := by
  unfold buildSchedule at h
  split_ifs at h with hzone hcounts
  obtain rfl := Except.ok.inj h
  push Not at hcounts
  simp [hcounts.1]

structure StartRules (P : Protocol ι Call Call.Answer Failure A S) (i : ι) (gen : Generators)
    (runId : TrialRunId) (begun : Fact ι S) : Prop where
  now : P.Triple i begun .now fun _ => begun
  create : ∀ command : NewTrial, command.schedule.length = 8 →
    P.Triple i begun (.store (.trials (.create gen.uuid5 runId command))) fun _ _ _ => True

theorem StartRules.start_ensures {gen : Generators} {runId : TrialRunId} {begun : Fact ι S}
    (h : StartRules P i gen runId begun) (cfg : TrialSettings) (startAt : Option DateTime)
    (counts : List ℤ) (hbegun : begun l s) :
    Ensures P i (start gen cfg runId startAt counts) Anything l s := by
  have hstart : ∀ startAt l s, begun l s →
      Ensures P i (start gen cfg runId (some startAt) counts) Anything l s := by
    intro startAt l s hbegun
    unfold start
    split_ifs
    · simp only [Program.done_bind]
      cases hschedule : buildSchedule startAt counts with
      | error e => exact .raised
      | ok schedule =>
          have hlength := buildSchedule_length hschedule
          simp only
          rw [← bind_pure (callStore _)]
          exact store_ensures (h.create ⟨startAt.instant, schedule⟩ hlength)
            (fun _ _ _ => anything_done) hbegun
    · exact .raised
  cases startAt with
  | some startAt => exact hstart startAt l s hbegun
  | none =>
      unfold start at hstart ⊢
      split_ifs at hstart ⊢
      · refine .call hbegun h.now fun time l s hbegun => ?_
        exact hstart ⟨time, some 0⟩ l s hbegun
      · exact .raised

/-! ### Issuing drafts -/

/-- The write after a lookup that raised. -/
def lookupFailure (cfg : TrialSettings) (draft : InvoiceDraft) (time : ℤ) (e : ProviderError) :
    InvoiceStoreOp :=
  if e.kind.isTransient then
    .retry ⟨draft.id, e.kind.typeName, time⟩ (Services.backoff cfg draft.attempts)
      cfg.invoiceMaxAttempts
  else .failed ⟨draft.id, e.kind.typeName, time⟩

/-- The write after a creation that raised. -/
def createFailure (cfg : TrialSettings) (draft : InvoiceDraft) (time : ℤ) (e : ProviderError) :
    InvoiceStoreOp :=
  if e.kind.isTimeout then .unknownResult ⟨draft.id, e.kind.typeName, time⟩
  else lookupFailure cfg draft time e

/-- The error that `create_invoice` makes of an answer without an invoice. -/
def createError : SdkAnswer SdkInvoice → ProviderError
  | .error e :: _ => raiseProvider e "create_invoice" true
  | _ => ⟨.unknownOutcome, "create_invoice_empty"⟩

/-- What is known while the drafts of a batch are issued one by one: before the next
draft, when that draft may be created, when its invoice is known, and when there is none to
write and this is to be written instead. -/
structure StepFacts (ι S : Type) where
  remaining : List InvoiceDraft → Fact ι S
  absent : InvoiceDraft → List InvoiceDraft → Fact ι S
  found : InvoiceDraft → List InvoiceDraft → InvoiceId → Fact ι S
  undecided : InvoiceDraft → List InvoiceDraft → InvoiceStoreOp → Fact ι S

/-- The calls of the loop, each with the write that follows it; `fails` is what holds where
an exception leaves the loop. -/
structure IssueSteps (P : Protocol ι Call Call.Answer Failure A S) (i : ι)
    (cfg : TrialSettings) (time : ℤ) (fails : Fact ι S) (facts : StepFacts ι S) : Prop where
  remaining_stable : ∀ ds, P.Stable i (facts.remaining ds)
  absent_stable : ∀ d ds, P.Stable i (facts.absent d ds)
  fails_stable : P.Stable i fails
  absent_fails : ∀ d ds l s, facts.absent d ds l s → fails l s
  fresh : ∀ d ds l s, facts.remaining (d :: ds) l s → d.attempts = 0 → facts.absent d ds l s
  query : ∀ d ds, 0 < d.attempts → P.Triple i (facts.remaining (d :: ds))
    (.invoiceQuery 1 [d.tag]) fun answer l s =>
      match answer with
      | [] => facts.absent d ds l s
      | .error e :: _ => facts.undecided d ds
          (lookupFailure cfg d time (raiseProvider e "find_invoice" false)) l s
      | .ok invoice :: _ => facts.found d ds invoice.id l s
  create : ∀ d ds, P.Triple i (facts.absent d ds) (.invoiceCreate (invoiceRequest d))
    fun answer l s =>
      match answer with
      | .ok invoice :: _ => facts.found d ds invoice.id l s
      | answer => facts.undecided d ds (createFailure cfg d time (createError answer)) l s
  created : ∀ d ds id, P.Triple i (facts.found d ds id)
    (.store (.invoices (.created ⟨d.id, id, time⟩)))
    (Ends (fun _ => facts.remaining ds) fails)
  unissued : ∀ d ds op, P.Triple i (facts.undecided d ds op)
    (.store (.invoices op)) (Ends (fun _ => facts.remaining ds) fails)

namespace IssueSteps
variable {cfg : TrialSettings} {time : ℤ} {fails : Fact ι S} {facts : StepFacts ι S}
variable (h : IssueSteps P i cfg time fails facts)
include h

theorem recordCreated_ensures {d : InvoiceDraft} {ds : List InvoiceDraft}
    {invoice : ProviderInvoice} (hf : facts.found d ds invoice.id l s) :
    Ensures P i (recordCreated d invoice time)
      (Ends (fun _ => facts.remaining ds) fails) l s := by
  unfold recordCreated
  rw [← bind_pure (callStore _)]
  exact store_bind (h.created d ds invoice.id) hf
    (fun _ _ _ hr => .returned (h.remaining_stable ds) hr) h.fails_stable

/-- Whichever write follows a failure, its value is not used. -/
theorem unissued_bind {d : InvoiceDraft} {ds : List InvoiceDraft} {op : InvoiceStoreOp}
    (hu : facts.undecided d ds op l s) :
    Ensures P i (callStore (.invoices op) >>= fun _ => .done ())
      (Ends (fun _ => facts.remaining ds) fails) l s :=
  store_bind (h.unissued d ds op) hu (fun _ _ _ hr => .returned (h.remaining_stable ds) hr)
    h.fails_stable

theorem lookupFailure_ensures {d : InvoiceDraft} {ds : List InvoiceDraft} {e : ProviderError}
    (hu : facts.undecided d ds (lookupFailure cfg d time e) l s) :
    Ensures P i (if e.kind.isTransient then recordRetry cfg d e time else recordFailed d e time)
      (Ends (fun _ => facts.remaining ds) fails) l s := by
  unfold lookupFailure at hu
  split_ifs at hu ⊢
  · exact h.unissued_bind hu
  · unfold recordFailed
    rw [← bind_pure (callStore _)]
    exact h.unissued_bind hu

theorem createFailure_ensures {d : InvoiceDraft} {ds : List InvoiceDraft} {e : ProviderError}
    (hu : facts.undecided d ds (createFailure cfg d time e) l s) :
    Ensures P i (if e.kind.isTimeout then recordUnknown d e time
        else if e.kind.isTransient then recordRetry cfg d e time else recordFailed d e time)
      (Ends (fun _ => facts.remaining ds) fails) l s := by
  unfold createFailure at hu
  split_ifs at hu ⊢ with htimeout htransient
  · unfold recordUnknown
    rw [← bind_pure (callStore _)]
    exact h.unissued_bind hu
  · simpa only [if_pos htransient] using h.lookupFailure_ensures hu
  · simpa only [if_neg htransient] using h.lookupFailure_ensures hu

/-- A create whose answer is an invoice or an error. -/
theorem createInvoice_bind {d : InvoiceDraft} {ds : List InvoiceDraft} {live : Bool}
    {f : Except ProviderError ProviderInvoice → Service B} {fact : B → Fact ι S}
    (ha : facts.absent d ds l s)
    (hok : ∀ id l s, facts.found d ds id l s →
      Ensures P i (f (.ok ⟨id, d.tag⟩)) (Ends fact fails) l s)
    (herror : ∀ e l s, facts.undecided d ds (createFailure cfg d time e) l s →
      Ensures P i (f (.error e)) (Ends fact fails) l s) :
    Ensures P i (createInvoice live d >>= f) (Ends fact fails) l s := by
  unfold createInvoice
  cases live with
  | false => exact .raised (h.absent_fails d ds l s ha) h.fails_stable
  | true =>
      refine .call ha (h.create d ds) fun answer l s hr => ?_
      match answer, hr with
      | [], hr => exact herror _ _ _ hr
      | .error e :: _, hr => exact herror _ _ _ hr
      | .ok invoice :: _, hr => exact hok _ _ _ hr

theorem createDraft_ensures {d : InvoiceDraft} {ds : List InvoiceDraft}
    (ha : facts.absent d ds l s) :
    Ensures P i (createDraft cfg d time) (Ends (fun _ => facts.remaining ds) fails) l s :=
  h.createInvoice_bind ha (fun _ _ _ hf => h.recordCreated_ensures hf)
    fun _ _ _ hu => h.createFailure_ensures hu

/-- After the lookup the draft is done, or it may be created. -/
theorem settleAttemptedDraft_ensures (hP : P.Sound) {d : InvoiceDraft} {ds : List InvoiceDraft}
    (hattempts : 0 < d.attempts) (hr : facts.remaining (d :: ds) l s) :
    Ensures P i (settleAttemptedDraft cfg d time)
      (Ends (fun done => if done then facts.remaining ds else facts.absent d ds) fails)
      l s := by
  have hdone : ∀ l s, facts.remaining ds l s → Ensures P i (.done true)
      (Ends (fun done => if done then facts.remaining ds else facts.absent d ds) fails)
      l s := fun l s hr => .returned (h.remaining_stable ds) hr
  refine .call hr (h.query d ds hattempts) fun answer l s hr => ?_
  match answer, hr with
  | [], hr => exact .returned (h.absent_stable d ds) hr
  | .error e :: _, hr =>
      have hwritten := h.lookupFailure_ensures hr
      change Ensures P i (if _ then _ else _) _ _ _
      split_ifs at hwritten ⊢
      · exact .seq hP hwritten (fun _ l s hr => hdone l s hr) h.fails_stable
      · exact .seq hP hwritten (fun _ l s hr => hdone l s hr) h.fails_stable
  | .ok invoice :: _, hr =>
      change Ensures P i (recordCreated d ⟨invoice.id, d.tag⟩ time >>= fun _ => pure true) _ _ _
      exact .seq hP (h.recordCreated_ensures hr) (fun _ l s hr => hdone l s hr) h.fails_stable

theorem issueDraft_ensures (hP : P.Sound) (d : InvoiceDraft) (ds : List InvoiceDraft)
    (hr : facts.remaining (d :: ds) l s) :
    Ensures P i (issueDraft cfg d time) (Ends (fun _ => facts.remaining ds) fails) l s := by
  unfold issueDraft
  split_ifs with hattempts
  · refine .seq hP (h.settleAttemptedDraft_ensures hP hattempts hr) (fun done l s hr => ?_)
      h.fails_stable
    cases done with
    | true => exact .returned (h.remaining_stable ds) hr
    | false => exact h.createDraft_ensures hr
  · exact h.createDraft_ensures (h.fresh d ds l s hr (by omega))

end IssueSteps

/-- The facts of a loop in which it does not matter what is written after a failure. -/
structure IssueFacts (ι S : Type) where
  remaining : List InvoiceDraft → Fact ι S
  absent : InvoiceDraft → List InvoiceDraft → Fact ι S
  found : InvoiceDraft → List InvoiceDraft → InvoiceId → Fact ι S
  undecided : InvoiceDraft → List InvoiceDraft → Fact ι S

/-- The writes after a provider call that gave no invoice. -/
inductive Unissued (cfg : TrialSettings) (draft : InvoiceDraft) (time : ℤ) : InvoiceStoreOp → Prop
  | retry (code : String) : Unissued cfg draft time (.retry ⟨draft.id, code, time⟩
      (Services.backoff cfg draft.attempts) cfg.invoiceMaxAttempts)
  | failed (code : String) : Unissued cfg draft time (.failed ⟨draft.id, code, time⟩)
  | unknownResult (code : String) :
      Unissued cfg draft time (.unknownResult ⟨draft.id, code, time⟩)

theorem lookupFailure_unissued (cfg : TrialSettings) (d : InvoiceDraft) (time : ℤ)
    (e : ProviderError) : Unissued cfg d time (lookupFailure cfg d time e) := by
  unfold lookupFailure
  split_ifs
  · exact .retry e.kind.typeName
  · exact .failed e.kind.typeName

theorem createFailure_unissued (cfg : TrialSettings) (d : InvoiceDraft) (time : ℤ)
    (e : ProviderError) : Unissued cfg d time (createFailure cfg d time e) := by
  unfold createFailure
  split_ifs
  · exact .unknownResult e.kind.typeName
  · exact lookupFailure_unissued cfg d time e

/-- The calls of the loop; `fails` is what holds where an exception leaves it. -/
structure IssueRules (P : Protocol ι Call Call.Answer Failure A S) (i : ι)
    (cfg : TrialSettings) (time : ℤ) (fails : Fact ι S) (facts : IssueFacts ι S) : Prop where
  remaining_stable : ∀ ds, P.Stable i (facts.remaining ds)
  absent_stable : ∀ d ds, P.Stable i (facts.absent d ds)
  fails_stable : P.Stable i fails
  absent_fails : ∀ d ds l s, facts.absent d ds l s → fails l s
  fresh : ∀ d ds l s, facts.remaining (d :: ds) l s → d.attempts = 0 → facts.absent d ds l s
  query : ∀ d ds, 0 < d.attempts → P.Triple i (facts.remaining (d :: ds))
    (.invoiceQuery 1 [d.tag]) fun answer l s =>
      match answer with
      | [] => facts.absent d ds l s
      | .error _ :: _ => facts.undecided d ds l s
      | .ok invoice :: _ => facts.found d ds invoice.id l s
  create : ∀ d ds, P.Triple i (facts.absent d ds) (.invoiceCreate (invoiceRequest d))
    fun answer l s =>
      match answer with
      | .ok invoice :: _ => facts.found d ds invoice.id l s
      | _ => facts.undecided d ds l s
  created : ∀ d ds id, P.Triple i (facts.found d ds id)
    (.store (.invoices (.created ⟨d.id, id, time⟩)))
    (Ends (fun _ => facts.remaining ds) fails)
  unissued : ∀ d ds op, Unissued cfg d time op → P.Triple i (facts.undecided d ds)
    (.store (.invoices op)) (Ends (fun _ => facts.remaining ds) fails)

/-- The facts of single steps that such facts amount to. -/
def IssueFacts.steps (facts : IssueFacts ι S) (cfg : TrialSettings) (time : ℤ) :
    StepFacts ι S where
  remaining := facts.remaining
  absent := facts.absent
  found := facts.found
  undecided d ds op l s := Unissued cfg d time op ∧ facts.undecided d ds l s

theorem IssueRules.steps {cfg : TrialSettings} {time : ℤ} {fails : Fact ι S}
    {facts : IssueFacts ι S} (h : IssueRules P i cfg time fails facts) :
    IssueSteps P i cfg time fails (facts.steps cfg time) where
  remaining_stable := h.remaining_stable
  absent_stable := h.absent_stable
  fails_stable := h.fails_stable
  absent_fails := h.absent_fails
  fresh := h.fresh
  query d ds hattempts := (h.query d ds hattempts).mono fun answer l s hr => by
    match answer, hr with
    | [], hr => exact hr
    | .error e :: _, hr => exact ⟨lookupFailure_unissued _ _ _ _, hr⟩
    | .ok invoice :: _, hr => exact hr
  create d ds := (h.create d ds).mono fun answer l s hr => by
    match answer, hr with
    | [], hr => exact ⟨createFailure_unissued _ _ _ _, hr⟩
    | .error e :: _, hr => exact ⟨createFailure_unissued _ _ _ _, hr⟩
    | .ok invoice :: _, hr => exact hr
  created := h.created
  unissued d ds op := by
    by_cases hop : Unissued cfg d time op
    · have hwrite := h.unissued d ds op hop
      exact ⟨fun l s l' s' hu hr hi => ⟨hu.1, hwrite.stable l s l' s' hu.2 hr hi⟩,
        fun l s hu => hwrite.demand l s hu.2, fun l s r t hu => hwrite.keeps l s r t hu.2,
        fun l s r t hu => hwrite.result l s r t hu.2⟩
    · exact ⟨fun l s l' s' hu => absurd hu.1 hop, fun l s hu => absurd hu.1 hop,
        fun l s r t hu => absurd hu.1 hop, fun l s r t hu => absurd hu.1 hop⟩

/-! ### One tick -/

/-- However an invocation ends, the fact holds. -/
abbrev Always (fact : Fact ι S) : Except Failure B → Log ι Call Call.Answer → S → Prop :=
  Ends (fun _ => fact) fact

/-- The calls of a tick around the loop over its drafts, and one round of the loop. -/
structure TickSteps (P : Protocol ι Call Call.Answer Failure A S) (i : ι) (gen : Generators)
    (cfg : TrialSettings) (start fails : Fact ι S) (read : ℤ → Fact ι S)
    (held saved : InvoiceBatch → ℤ → Fact ι S)
    (remaining : InvoiceBatch → ℤ → List InvoiceDraft → Fact ι S) : Prop where
  fails_stable : P.Stable i fails
  start_fails : ∀ l s, start l s → fails l s
  now : P.Triple i start .now fun time => read time
  claim : ∀ time, P.Triple i (read time) (.store (.trials (.claimDueBatch
    ⟨time, time + seconds cfg.batchLeaseSeconds, cfg.batchMaxAttempts⟩)))
    (Ends (fun claimed l s =>
      match claimed with
      | none => fails l s
      | some (batch : InvoiceBatch) => held batch time l s) fails)
  save : ∀ batch time, P.Triple i (held batch time)
    (.store (.invoices (.save batch.id (buildInvoiceDrafts gen batch time))))
    (Ends (fun _ => saved batch time) fails)
  pending : ∀ batch time, P.Triple i (saved batch time)
    (.store (.invoices (.pending batch.id time)))
    (Ends (fun drafts => remaining batch time drafts) fails)
  remaining_stable : ∀ batch time ds, P.Stable i (remaining batch time ds)
  issue : ∀ batch time d ds l s, remaining batch time (d :: ds) l s →
    Ensures P i (issueDraft cfg d time) (Ends (fun _ => remaining batch time ds) fails) l s
  settle : ∀ batch time, P.Triple i (remaining batch time [])
    (.store (.invoices (.settle batch.id time))) fun _ => fails

theorem TickSteps.tick_ensures (hP : P.Sound) {gen : Generators} {cfg : TrialSettings}
    {start fails : Fact ι S} {read : ℤ → Fact ι S} {held saved : InvoiceBatch → ℤ → Fact ι S}
    {remaining : InvoiceBatch → ℤ → List InvoiceDraft → Fact ι S}
    (h : TickSteps P i gen cfg start fails read held saved remaining) (hs : start l s) :
    Ensures P i (tick gen cfg) (Always fails) l s := by
  have hfails := h.fails_stable
  unfold tick
  split_ifs
  · refine .call hs h.now fun time l s hread => ?_
    refine store_bind (h.claim time) hread (fun claimed l s hclaimed => ?_) hfails
    match claimed, hclaimed with
    | none, hclaimed => exact .returned hfails hclaimed
    | some batch, hclaimed =>
        refine store_bind (h.save batch time) hclaimed (fun _ l s hsaved => ?_) hfails
        refine store_bind (h.pending batch time) hsaved (fun drafts l s hlisted => ?_) hfails
        have hloop : Ensures P i (Program.forEach (fun draft => issueDraft cfg draft time) drafts)
            (Ends (fun _ => remaining batch time []) fails) l s :=
          .forEach hP (h.remaining_stable batch time [])
            (fun d ds l s hr => h.issue batch time d ds l s hr) hlisted hfails
        refine .seq hP hloop (fun _ l s hr => ?_) hfails
        refine .call hr (h.settle batch time) fun r l s hended => ?_
        cases r with
        | ok status => exact .returned hfails hended
        | error e => exact .raised hended hfails
  · exact .returned hfails (h.start_fails l s hs)

structure TickRules (P : Protocol ι Call Call.Answer Failure A S) (i : ι) (gen : Generators)
    (cfg : TrialSettings) (start fails : Fact ι S) (read : ℤ → Fact ι S)
    (held saved : InvoiceBatch → ℤ → Fact ι S) (facts : InvoiceBatch → ℤ → IssueFacts ι S) :
    Prop where
  fails_stable : P.Stable i fails
  start_fails : ∀ l s, start l s → fails l s
  now : P.Triple i start .now fun time => read time
  claim : ∀ time, P.Triple i (read time) (.store (.trials (.claimDueBatch
    ⟨time, time + seconds cfg.batchLeaseSeconds, cfg.batchMaxAttempts⟩)))
    (Ends (fun claimed l s =>
      match claimed with
      | none => fails l s
      | some (batch : InvoiceBatch) => held batch time l s) fails)
  save : ∀ batch time, P.Triple i (held batch time)
    (.store (.invoices (.save batch.id (buildInvoiceDrafts gen batch time))))
    (Ends (fun _ => saved batch time) fails)
  pending : ∀ batch time, P.Triple i (saved batch time)
    (.store (.invoices (.pending batch.id time)))
    (Ends (fun drafts => (facts batch time).remaining drafts) fails)
  issue : ∀ batch time, IssueRules P i cfg time fails (facts batch time)
  settle : ∀ batch time, P.Triple i ((facts batch time).remaining [])
    (.store (.invoices (.settle batch.id time))) fun _ => fails

theorem TickRules.tick_ensures (hP : P.Sound) {gen : Generators} {cfg : TrialSettings}
    {start fails : Fact ι S} {read : ℤ → Fact ι S} {held saved : InvoiceBatch → ℤ → Fact ι S}
    {facts : InvoiceBatch → ℤ → IssueFacts ι S}
    (h : TickRules P i gen cfg start fails read held saved facts) (hs : start l s) :
    Ensures P i (tick gen cfg) (Always fails) l s := by
  have hsteps : TickSteps P i gen cfg start fails read held saved
      fun batch time => (facts batch time).remaining :=
    { fails_stable := h.fails_stable
      start_fails := h.start_fails
      now := h.now
      claim := h.claim
      save := h.save
      pending := h.pending
      remaining_stable := fun batch time => (h.issue batch time).remaining_stable
      issue := fun batch time d ds _ _ hr =>
        (h.issue batch time).steps.issueDraft_ensures hP d ds hr
      settle := h.settle }
  exact hsteps.tick_ensures hP hs

/-! ### One reconcile pass -/

structure PassRules (P : Protocol ι Call Call.Answer Failure A S) (i : ι)
    (cfg : TrialSettings) (start fails : Fact ι S) (read : ℤ → Fact ι S)
    (remaining : ℤ → List InvoiceDraft → Fact ι S)
    (looked : ℤ → InvoiceDraft → List InvoiceDraft → Option InvoiceId → Fact ι S) : Prop where
  fails_stable : P.Stable i fails
  remaining_fails : ∀ time ds l s, remaining time ds l s → fails l s
  now : P.Triple i start .now fun time => read time
  unknown : ∀ time, P.Triple i (read time) (.store (.invoices (.unknown time 100)))
    (Ends (fun drafts => remaining time drafts) fails)
  remaining_stable : ∀ time ds, P.Stable i (remaining time ds)
  query : ∀ time d ds, P.Triple i (remaining time (d :: ds)) (.invoiceQuery 1 [d.tag])
    fun answer l s =>
      match answer with
      | [] => looked time d ds none l s
      | .error _ :: _ => remaining time ds l s
      | .ok invoice :: _ => looked time d ds (some invoice.id) l s
  reconcile : ∀ time d ds id, P.Triple i (looked time d ds id)
    (.store (.invoices (.reconcile ⟨d, id.map fun id => ⟨id, d.tag⟩, time⟩
      ⟨cfg.invoiceMaxAttempts, cfg.invoiceReconciliationMaxAttempts,
        Services.backoff cfg d.attempts⟩)))
    (Ends (fun _ => remaining time ds) fails)
  settle : ∀ time batchId, P.Triple i (remaining time [])
    (.store (.invoices (.settle batchId time))) (Ends (fun _ => remaining time []) fails)

namespace PassRules
variable {cfg : TrialSettings} {start fails : Fact ι S} {read : ℤ → Fact ι S}
variable {remaining : ℤ → List InvoiceDraft → Fact ι S}
variable {looked : ℤ → InvoiceDraft → List InvoiceDraft → Option InvoiceId → Fact ι S}
variable (h : PassRules P i cfg start fails read remaining looked)
include h

theorem reconcileDrafts_ensures {time : ℤ} {ds : List InvoiceDraft} (n : ℕ)
    (batches : List BatchId) (hr : remaining time ds l s) :
    Ensures P i (reconcileDrafts cfg time ds n batches)
      (Ends (fun _ => remaining time []) fails) l s := by
  induction ds generalizing n batches l s with
  | nil => exact .returned (h.remaining_stable time []) hr
  | cons d ds ih =>
      unfold reconcileDrafts
      refine .call hr (h.query time d ds) fun answer l s hr => ?_
      match answer, hr with
      | [], hr =>
          exact store_bind (h.reconcile time d ds none) hr (fun _ l s hr => ih _ _ hr)
            h.fails_stable
      | .ok invoice :: _, hr =>
          exact store_bind (h.reconcile time d ds (some invoice.id)) hr
            (fun _ l s hr => ih _ _ hr) h.fails_stable
      | .error e :: _, hr =>
          change Ensures P i (if _ then _ else _) _ _ _
          split_ifs
          · exact ih _ _ hr
          · exact .raised (h.remaining_fails time ds l s hr) h.fails_stable

theorem reconcileInvoices_ensures (hP : P.Sound) (setOrder : List BatchId → List BatchId)
    (hs : start l s) : Ensures P i (reconcileInvoices cfg setOrder) (Always fails) l s := by
  have hfails := h.fails_stable
  refine .call hs h.now fun time l s hread => ?_
  refine store_bind (h.unknown time) hread (fun drafts l s hr => ?_) hfails
  refine .seq hP (h.reconcileDrafts_ensures 0 [] hr) (fun result l s hr => ?_) hfails
  refine .seq hP (.forEach_const hP (h.remaining_stable time []) (fun batchId l s hr => ?_) hr
    hfails) (fun _ l s hr => .returned hfails (h.remaining_fails time [] l s hr)) hfails
  exact store_bind (h.settle time batchId) hr
    (fun _ _ _ hr => .returned (h.remaining_stable time []) hr) hfails

end PassRules

/-! ### One smoke batch -/

/-- The tag of one ordinal; it does not depend on the amount or the time. -/
def smokeTag (gen : Generators) (space reference : String) (ordinal : ℕ) : String :=
  "trial-smoke:" ++ gen.uuid5 ("starkbank-trial:smoke:" ++ space ++ ":" ++
    (reference ++ ":" ++ toString ordinal))

/-- What is known in a smoke batch: between two ordinals, with the invoices so far, when the
tag is registered, when there is no invoice with the tag, and when there is one. -/
structure SmokeFacts (ι S : Type) where
  recorded : List ProviderInvoice → Fact ι S
  registered : List ProviderInvoice → String → Fact ι S
  absent : List ProviderInvoice → String → Fact ι S
  found : List ProviderInvoice → String → InvoiceId → Fact ι S

/-- The calls for one ordinal. -/
structure SmokeSteps (P : Protocol ι Call Call.Answer Failure A S) (i : ι)
    (drafted : InvoiceDraft → Prop) (facts : SmokeFacts ι S) : Prop where
  recorded_stable : ∀ invoices, P.Stable i (facts.recorded invoices)
  found_stable : ∀ invoices tag id, P.Stable i (facts.found invoices tag id)
  now : ∀ invoices, P.Triple i (facts.recorded invoices) .now fun _ => facts.recorded invoices
  nowFound : ∀ invoices tag id, P.Triple i (facts.found invoices tag id) .now
    fun _ => facts.found invoices tag id
  register : ∀ invoices draft time, drafted draft → P.Triple i (facts.recorded invoices)
    (.store (.invoices (.registerSmoke draft time)))
    (Returns fun _ => facts.registered invoices draft.tag)
  registerFound : ∀ invoices draft id time, drafted draft →
    P.Triple i (facts.found invoices draft.tag id)
      (.store (.invoices (.registerSmoke draft time)))
      (Returns fun _ => facts.found invoices draft.tag id)
  query : ∀ invoices draft, drafted draft → P.Triple i (facts.registered invoices draft.tag)
    (.invoiceQuery 1 [draft.tag]) fun answer l s =>
      match answer with
      | [] => facts.absent invoices draft.tag l s
      | .error _ :: _ => True
      | .ok invoice :: _ => facts.found invoices draft.tag invoice.id l s
  create : ∀ invoices draft, drafted draft → P.Triple i (facts.absent invoices draft.tag)
    (.invoiceCreate (invoiceRequest draft)) fun answer l s =>
      match answer with
      | .ok invoice :: _ => facts.found invoices draft.tag invoice.id l s
      | _ => facts.registered invoices draft.tag l s
  bind : ∀ invoices tag id time, P.Triple i (facts.found invoices tag id)
    (.store (.invoices (.bindProviderInvoice tag id time)))
    (Returns fun _ => facts.recorded (invoices ++ [⟨id, tag⟩]))

namespace SmokeSteps
variable {drafted : InvoiceDraft → Prop} {facts : SmokeFacts ι S} {cfg : TrialSettings}
variable {gen : Generators} {invoices : List ProviderInvoice}
variable (h : SmokeSteps P i drafted facts)
include h

theorem recordSmoke_ensures {draft : InvoiceDraft} (hd : drafted draft) {id : InvoiceId}
    (time : ℤ) (hf : facts.found invoices draft.tag id l s) :
    Ensures P i (recordSmoke draft id time)
      (Returns fun _ => facts.recorded (invoices ++ [⟨id, draft.tag⟩])) l s := by
  unfold recordSmoke
  refine store_bind (h.registerFound invoices draft id time hd) hf fun _ l s hf => ?_
  rw [← bind_pure (callStore _)]
  exact store_bind (h.bind invoices draft.tag id time) hf
    fun _ l s hr => .returned (h.recorded_stable _) hr

/-- A lookup, by what it finds. -/
theorem findInvoice_bind {draft : InvoiceDraft} (hd : drafted draft)
    {f : Except ProviderError (Option ProviderInvoice) → Service B} {fact : B → Fact ι S}
    (hr : facts.registered invoices draft.tag l s)
    (hnone : ∀ l s, facts.absent invoices draft.tag l s →
      Ensures P i (f (.ok none)) (Returns fact) l s)
    (herror : ∀ e l s, Ensures P i (f (.error e)) (Returns fact) l s)
    (hsome : ∀ id l s, facts.found invoices draft.tag id l s →
      Ensures P i (f (.ok (some ⟨id, draft.tag⟩))) (Returns fact) l s) :
    Ensures P i (findInvoice draft.tag >>= f) (Returns fact) l s := by
  refine .call hr (h.query invoices draft hd) fun answer l s hr => ?_
  match answer, hr with
  | [], hr => exact hnone l s hr
  | .error e :: _, _ => exact herror _ l s
  | .ok invoice :: _, hr => exact hsome invoice.id l s hr

/-- The invoice that a lookup or a creation returns has the tag of the draft. -/
def created (facts : SmokeFacts ι S) (invoices : List ProviderInvoice) (tag : String)
    (invoice : ProviderInvoice) : Fact ι S := fun l s =>
  invoice.tag = tag ∧ facts.found invoices tag invoice.id l s

theorem createSmokeInvoice_ensures {draft : InvoiceDraft} (hd : drafted draft)
    (ha : facts.absent invoices draft.tag l s) :
    Ensures P i (createSmokeInvoice cfg draft)
      (Returns (created facts invoices draft.tag)) l s := by
  have hcreated : ∀ id l s, facts.found invoices draft.tag id l s →
      Ensures P i (.done ⟨id, draft.tag⟩) (Returns (created facts invoices draft.tag)) l s :=
    fun id l s hf => .returned (stable_and (h.found_stable invoices draft.tag id)) ⟨rfl, hf⟩
  unfold createSmokeInvoice createInvoice
  cases cfg.liveOperationsEnabled with
  | false => exact .raised
  | true =>
      refine .call ha (h.create invoices draft hd) fun answer l s hr => ?_
      -- an unknown outcome is looked up once more
      have hlookup : ∀ f : Except ProviderError (Option ProviderInvoice) → Service ProviderInvoice,
          facts.registered invoices draft.tag l s →
          (∀ l s, Ensures P i (f (.ok none)) (Returns (created facts invoices draft.tag)) l s) →
          (∀ e l s, Ensures P i (f (.error e)) (Returns (created facts invoices draft.tag)) l s) →
          (∀ id, f (.ok (some ⟨id, draft.tag⟩)) = .done ⟨id, draft.tag⟩) → Ensures P i
            (findInvoice draft.tag >>= f) (Returns (created facts invoices draft.tag)) l s :=
        fun f hr hnone herror hsome => h.findInvoice_bind hd hr (fun l s _ => hnone l s) herror
          fun id l s hf => (hsome id).symm ▸ hcreated id l s hf
      cases answer with
      | nil => exact hlookup _ hr (fun _ _ => .raised) (fun _ _ _ => .raised) fun _ => rfl
      | cons first rest =>
          cases first with
          | ok invoice => exact hcreated invoice.id l s hr
          | error e =>
              change Ensures P i (if (raiseProvider e "create_invoice" true).kind =
                .unknownOutcome then findInvoice draft.tag >>= _ else _) _ l s
              split_ifs
              · exact hlookup _ hr (fun _ _ => .raised) (fun _ _ _ => .raised) fun _ => rfl
              · exact .raised

theorem smokeInvoice_ensures (hP : P.Sound) {space reference : String} {amount : ℤ}
    (hdrafted : ∀ (ordinal : ℕ) time, drafted (buildSmokeInvoice gen
      (reference ++ ":" ++ toString ordinal) amount time space)) (ordinal : ℕ)
    (hr : facts.recorded invoices l s) :
    Ensures P i (smokeInvoice gen cfg space reference amount ordinal) (Returns fun result l s =>
      result.1.tag = smokeTag gen space reference ordinal ∧
        facts.recorded (invoices ++ [result.1]) l s) l s := by
  have hreturn : ∀ (invoice : ProviderInvoice) (reused : Bool) l s,
      invoice.tag = smokeTag gen space reference ordinal →
      facts.recorded (invoices ++ [⟨invoice.id, invoice.tag⟩]) l s →
      Ensures P i (.done (invoice, reused)) (Returns fun result l s =>
        result.1.tag = smokeTag gen space reference ordinal ∧
          facts.recorded (invoices ++ [result.1]) l s) l s :=
    fun invoice reused l s htag hr => .returned (stable_and (h.recorded_stable _)) ⟨htag, hr⟩
  unfold smokeInvoice
  refine .call hr (h.now invoices) fun time l s hr => ?_
  have hd := hdrafted ordinal time
  refine store_bind (h.register invoices _ time hd) hr fun _ l s hr => ?_
  refine h.findInvoice_bind hd hr (fun l s ha => ?_) (fun _ _ _ => .raised) fun id l s hf => ?_
  · refine .seq hP (h.createSmokeInvoice_ensures hd ha) fun invoice l s hf => ?_
    obtain ⟨htag, hf⟩ := hf
    refine .call hf (h.nowFound invoices _ invoice.id) fun createdAt l s hf => ?_
    change Ensures P i (recordSmoke _ invoice.id createdAt >>= fun _ => pure _) _ _ _
    refine .seq hP (h.recordSmoke_ensures hd createdAt hf) fun _ l s hr => ?_
    exact hreturn invoice false l s htag (htag ▸ hr)
  · refine .seq hP (h.recordSmoke_ensures hd time hf) fun _ l s hr => ?_
    exact hreturn _ true l s rfl hr

/-- The invoices that a batch returns, in the order of their ordinals. -/
theorem runSmokeBatch_ensures (hP : P.Sound) {space reference : String} {amount : ℤ}
    (hdrafted : ∀ (ordinal : ℕ) time, drafted (buildSmokeInvoice gen
      (reference ++ ":" ++ toString ordinal) amount time space)) (count : ℕ)
    (hr : facts.recorded [] l s) :
    Ensures P i (runSmokeBatch gen cfg space reference count amount) (Returns fun result l s =>
      result.1.map ProviderInvoice.tag =
          (List.range count).map (smokeTag gen space reference) ∧
        facts.recorded result.1 l s) l s := by
  have hall : ∀ ordinals invoices l s, facts.recorded invoices l s → Ensures P i
      (smokeInvoices gen cfg space reference amount ordinals) (Returns fun results l s =>
        results.map (fun r => r.1.tag) = ordinals.map (smokeTag gen space reference) ∧
          facts.recorded (invoices ++ results.map (·.1)) l s) l s := by
    intro ordinals
    induction ordinals with
    | nil =>
        intro invoices l s hr
        refine .returned (stable_and (h.recorded_stable _)) ⟨rfl, ?_⟩
        simpa using hr
    | cons ordinal ordinals ih =>
        intro invoices l s hr
        refine .seq hP (h.smokeInvoice_ensures hP hdrafted ordinal hr) fun first l s hfirst => ?_
        refine .seq hP (ih (invoices ++ [first.1]) l s hfirst.2) fun rest l s hrest => ?_
        refine .returned (stable_and (h.recorded_stable _)) ⟨?_, ?_⟩
        · rw [List.map_cons, List.map_cons, hfirst.1, hrest.1]
        · simpa using hrest.2
  refine .seq hP (hall (List.range count) [] l s hr) fun results l s hresults => ?_
  refine .returned (stable_and (h.recorded_stable _)) ⟨?_, hresults.2⟩
  rw [List.map_map]
  exact hresults.1

end SmokeSteps


/-- The calls of a batch of which it does not matter what was recorded before. -/
structure SmokeRules (P : Protocol ι Call Call.Answer Failure A S) (i : ι)
    (drafted : InvoiceDraft → Prop) (base : Fact ι S)
    (found : String → InvoiceId → Fact ι S) : Prop where
  base_stable : P.Stable i base
  found_stable : ∀ tag id, P.Stable i (found tag id)
  found_base : ∀ tag id l s, found tag id l s → base l s
  now : P.Triple i base .now fun _ => base
  nowFound : ∀ tag id, P.Triple i (found tag id) .now fun _ => found tag id
  register : ∀ draft time, drafted draft → P.Triple i base
    (.store (.invoices (.registerSmoke draft time))) fun _ => base
  registerFound : ∀ draft time id, drafted draft → P.Triple i (found draft.tag id)
    (.store (.invoices (.registerSmoke draft time))) fun _ => found draft.tag id
  query : ∀ draft, drafted draft → P.Triple i base (.invoiceQuery 1 [draft.tag])
    fun answer l s => base l s ∧ ∀ x, answer.head? = some (.ok x) → found draft.tag x.id l s
  create : ∀ draft, drafted draft → P.Triple i base (.invoiceCreate (invoiceRequest draft))
    fun answer l s => base l s ∧ ∀ x, answer.head? = some (.ok x) → found draft.tag x.id l s
  bind : ∀ tag id time, P.Triple i (found tag id)
    (.store (.invoices (.bindProviderInvoice tag id time))) fun _ => base

namespace SmokeRules
variable {drafted : InvoiceDraft → Prop} {base : Fact ι S}
variable {found : String → InvoiceId → Fact ι S}

/-- The facts for single ordinals that such facts amount to. -/
def facts (base : Fact ι S) (found : String → InvoiceId → Fact ι S) : SmokeFacts ι S where
  recorded _ := base
  registered _ _ := base
  absent _ _ := base
  found _ := found

theorem steps (h : SmokeRules P i drafted base found) : SmokeSteps P i drafted (facts base found) where
  recorded_stable _ := h.base_stable
  found_stable _ := h.found_stable
  now _ := h.now
  nowFound _ := h.nowFound
  register _ draft time hd := (h.register draft time hd).mono fun r _ _ hb => ends_of (fun _ => hb) trivial r
  registerFound _ draft id time hd := (h.registerFound draft time id hd).mono fun r _ _ hb => ends_of (fun _ => hb) trivial r
  query _ draft hd := by
    refine (h.query draft hd).mono fun answer l s hr => ?_
    match answer, hr with
    | [], hr => exact hr.1
    | .error _ :: _, _ => trivial
    | .ok invoice :: _, hr => exact hr.2 invoice rfl
  create _ draft hd := by
    refine (h.create draft hd).mono fun answer l s hr => ?_
    match answer, hr with
    | [], hr => exact hr.1
    | .error _ :: _, hr => exact hr.1
    | .ok invoice :: _, hr => exact hr.2 invoice rfl
  bind _ tag id time := (h.bind tag id time).mono fun r _ _ hb => ends_of (fun _ => hb) trivial r

theorem runSmokeBatch_ensures (h : SmokeRules P i drafted base found) {cfg : TrialSettings}
    {gen : Generators} (hP : P.Sound) {space reference : String} {amount : ℤ}
    (hdrafted : ∀ (ordinal : ℕ) time, drafted (buildSmokeInvoice gen
      (reference ++ ":" ++ toString ordinal) amount time space)) (count : ℕ) (hb : base l s) :
    Ensures P i (runSmokeBatch gen cfg space reference count amount) Anything l s :=
  (h.steps.runSmokeBatch_ensures hP hdrafted count hb).mono fun o _ _ _ => by
    cases o <;> trivial

end SmokeRules

end StarkbankTrial.TrialRules
