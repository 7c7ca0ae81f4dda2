import StarkbankTrial.BatchChanges
import StarkbankTrial.ScriptedRuns

/-!
# One pass over the unknown drafts

The pass runs alone: its clock is read once, and every lookup has one answer. Each draft is
written as soon as its lookup has answered, the batches are settled after the last one, and
a permanent error of a lookup leaves the pass at once.
-/
namespace StarkbankTrial.ReconcilePass
open Domain InteractivePrograms RelationalTables Transaction DatabaseSchema
open DatabaseSchema.Table
open InvoiceRecording StoreOperations InvoiceChanges BatchChanges ExternalCalls ProviderClient
open Services ScriptedRuns
open Program hiding atomically

/-! ### The surroundings of a pass -/

/-- The database and the transactions that were run. -/
structure PassState where
  db : Database Row
  performed : List StoreOp

/-- The answers to a pass: one time, and one answer for every tag. -/
def answerCall (time : ℤ) (lookup : String → SdkAnswer SdkInvoice) :
    (call : Call) → PassState → call.Answer × PassState
  | .now, s => (time, s)
  | .store op, s => ((op.apply s.db).1, ⟨(op.apply s.db).2, s.performed ++ [op]⟩)
  | .invoiceQuery _ (tag :: _), s => (lookup tag, s)
  | .invoiceQuery _ [], s => ([], s)
  | .invoiceCreate _, s => ([], s)
  | .transferCreate _, s => ([], s)
  | .transferQuery _ _, s => ([], s)

/-- What `find_invoice` makes of the answer for a tag. -/
def lookedUp (lookup : String → SdkAnswer SdkInvoice) (tag : String) :
    Except ProviderError (Option ProviderInvoice) :=
  match lookup tag with
  | [] => .ok none
  | .error e :: _ => .error (raiseProvider e "find_invoice" false)
  | .ok invoice :: _ => .ok (some ⟨invoice.id, tag⟩)

variable {cfg : TrialSettings} {time : ℤ} {lookup : String → SdkAnswer SdkInvoice}

theorem findInvoice_run (tag : String) (s : PassState) :
    (findInvoice tag).run (answerCall time lookup) s = (.ok (lookedUp lookup tag), s) := by
  unfold findInvoice lookedUp
  rw [run_call]
  simp only [answerCall]
  rcases lookup tag with _ | ⟨_ | _, _⟩ <;> rfl

/-- The drafts that the pass is about. -/
def due (time : ℤ) (db : Database Row) : List InvoiceDraftRow :=
  (db invoiceDrafts).filter fun d : InvoiceDraftRow =>
    d.status == .unknown && d.nextAttemptAt ≤ time

/-- The lookup found an invoice or found that there is none. -/
def Answered (lookup : String → SdkAnswer SdkInvoice) (d : InvoiceDraftRow) : Prop :=
  ∃ invoice, lookedUp lookup d.tag = .ok invoice

/-- The lookup raised, and not a transient error. -/
def Permanent (lookup : String → SdkAnswer SdkInvoice) (d : InvoiceDraftRow) : Prop :=
  ∃ e, lookedUp lookup d.tag = .error e ∧ e.kind.isTransient = false

/-- The lookup raised a transient error. -/
def Transient (lookup : String → SdkAnswer SdkInvoice) (d : InvoiceDraftRow) : Prop :=
  ∃ e, lookedUp lookup d.tag = .error e ∧ e.kind.isTransient = true

/-! ### What the pass is to achieve -/

/-- One more reconciliation attempt: the draft waits for the next one, or it was the last
and the draft is issued again, if it has attempts left. -/
inductive Counted (cfg : TrialSettings) (d d' : InvoiceDraftRow) : Prop
  | waits : d.reconcileAttempts + 1 < cfg.invoiceReconciliationMaxAttempts →
      d'.status = .unknown → d'.reconcileAttempts = d.reconcileAttempts + 1 → Counted cfg d d'
  | last : cfg.invoiceReconciliationMaxAttempts ≤ d.reconcileAttempts + 1 →
      d'.status = (if cfg.invoiceMaxAttempts ≤ d.attempts then .failed else .pending) →
      d'.reconcileAttempts = 0 → Counted cfg d d'

/-- The batch was settled after the last change of its drafts, and shows their state. -/
structure Settled (time : ℤ) (s : PassState) (batchId : BatchId) : Prop where
  performed : ∃ earlier later, s.performed = earlier ++ .invoices (.settle batchId time) :: later ∧
    ∀ op ∈ later, invoiceDrafts ∉ op.tables
  shown : ∀ b ∈ s.db invoiceBatches, b.id = batchId →
    b.status = settledStatus b (draftsOf batchId s.db) ∧ b.leaseUntil = none

/-- Every due draft is handled as its own lookup says, and the changed batches are settled. -/
structure Handled (cfg : TrialSettings) (time : ℤ) (lookup : String → SdkAnswer SdkInvoice)
    (db : Database Row) (s : PassState) : Prop where
  found : ∀ d ∈ due time db, ∀ invoice, lookedUp lookup d.tag = .ok (some invoice) →
    ∃ d' ∈ s.db invoiceDrafts, d'.id = d.id ∧ d'.status = .created ∧
      d'.providerInvoiceId = some invoice.id
  missed : ∀ d ∈ due time db, lookedUp lookup d.tag = .ok none →
    ∃ d' ∈ s.db invoiceDrafts, d'.id = d.id ∧ Counted cfg d d'
  unchanged : ∀ d ∈ due time db, Transient lookup d → d ∈ s.db invoiceDrafts
  settled : ∀ d ∈ db invoiceDrafts, d ∉ s.db invoiceDrafts → Settled time s d.batchId

/-- The state before a pass: at most as many due drafts as the query returns, every draft
in a stored batch, and every invoice that is found used by no other draft. -/
structure Ready (time : ℤ) (lookup : String → SdkAnswer SdkInvoice) (db : Database Row) :
    Prop where
  consistent : metadata.Consistent db
  limit : (due time db).length ≤ 100
  batches : ∀ d ∈ db invoiceDrafts, ∃ b ∈ db invoiceBatches, b.id = d.batchId
  distinct : ∀ d ∈ due time db, ∀ d' ∈ due time db, ∀ invoice invoice',
    lookedUp lookup d.tag = .ok (some invoice) → lookedUp lookup d'.tag = .ok (some invoice') →
      invoice.id = invoice'.id → d = d'
  drafts : ∀ d ∈ due time db, ∀ invoice, lookedUp lookup d.tag = .ok (some invoice) →
    ∀ d' ∈ db invoiceDrafts, d'.id ≠ d.id → d'.providerInvoiceId ≠ some invoice.id
  owners : ∀ d ∈ due time db, ∀ invoice, lookedUp lookup d.tag = .ok (some invoice) →
    ∀ o ∈ db ownedInvoices, o.draftId ≠ some d.id → o.providerInvoiceId ≠ some invoice.id

/-- The state after the pass. -/
def afterPass (cfg : TrialSettings) (time : ℤ) (lookup : String → SdkAnswer SdkInvoice)
    (setOrder : List BatchId → List BatchId) (db : Database Row) : PassState :=
  ((reconcileInvoices cfg setOrder).run (answerCall time lookup) ⟨db, []⟩).2

/-! ### One draft -/

/-- The limits with which a draft is reconciled. -/
def limitsOf (cfg : TrialSettings) (d : InvoiceDraftRow) : ReconcileLimits :=
  ⟨cfg.invoiceMaxAttempts, cfg.invoiceReconciliationMaxAttempts, backoff cfg d.attempts⟩

/-- A due draft after the pass has reached it. -/
def handledDraft (cfg : TrialSettings) (time : ℤ) (lookup : String → SdkAnswer SdkInvoice)
    (d : InvoiceDraftRow) : InvoiceDraftRow :=
  match lookedUp lookup d.tag with
  | .ok (some invoice) => (DraftTransition.created ⟨d.id, invoice.id, time⟩).apply d
  | .ok none => missDraft (limitsOf cfg d) (toDraft d) time d d
  | .error _ => d

theorem handledDraft_found {d : InvoiceDraftRow} {invoice : ProviderInvoice}
    (h : lookedUp lookup d.tag = .ok (some invoice)) : handledDraft cfg time lookup d =
      (DraftTransition.created ⟨d.id, invoice.id, time⟩).apply d := by
  unfold handledDraft
  rw [h]

theorem handledDraft_missed {d : InvoiceDraftRow} (h : lookedUp lookup d.tag = .ok none) :
    handledDraft cfg time lookup d = missDraft (limitsOf cfg d) (toDraft d) time d d := by
  unfold handledDraft
  rw [h]

theorem handledDraft_error {d : InvoiceDraftRow} {e : ProviderError}
    (h : lookedUp lookup d.tag = .error e) : handledDraft cfg time lookup d = d := by
  unfold handledDraft
  rw [h]

theorem handledDraft_id (d : InvoiceDraftRow) : (handledDraft cfg time lookup d).id = d.id := by
  unfold handledDraft
  split <;> rfl

theorem missDraft_counted (cfg : TrialSettings) (time : ℤ) (d : InvoiceDraftRow) :
    Counted cfg d (missDraft (limitsOf cfg d) (toDraft d) time d d) := by
  by_cases hlast : cfg.invoiceReconciliationMaxAttempts ≤ d.reconcileAttempts + 1
  · refine .last hlast ?_ ?_
    · simp [missDraft, limitsOf, toDraft, hlast]
    · simp [missDraft, limitsOf, hlast]
  · refine .waits (not_le.mp hlast) ?_ ?_
    · simp [missDraft, limitsOf, hlast]
    · simp [missDraft, limitsOf, hlast]

/-- An unknown draft is not its own next attempt. -/
theorem Counted.changed {d : InvoiceDraftRow} (hstatus : d.status = .unknown)
    (h : Counted cfg d d) : False := by
  cases h with
  | waits _ _ hcount => omega
  | last _ hlast _ =>
      rw [hstatus] at hlast
      split_ifs at hlast

theorem handledDraft_changed {d : InvoiceDraftRow} (hstatus : d.status = .unknown)
    (h : Answered lookup d) : handledDraft cfg time lookup d ≠ d := by
  obtain ⟨invoice, h⟩ := h
  intro heq
  cases invoice with
  | some invoice =>
      rw [handledDraft_found h] at heq
      have hcreated := congrArg InvoiceDraftRow.status heq
      rw [hstatus] at hcreated
      exact absurd hcreated (by simp [DraftTransition.apply, DraftTransition.created])
  | none =>
      rw [handledDraft_missed h] at heq
      have hcounted := missDraft_counted cfg time d
      rw [heq] at hcounted
      exact hcounted.changed hstatus

/-- The state after some drafts were handled, and before any batch is settled. -/
structure Done (cfg : TrialSettings) (time : ℤ) (lookup : String → SdkAnswer SdkInvoice)
    (db : Database Row) (handled : List InvoiceDraftRow) (s : PassState) : Prop where
  consistent : metadata.Consistent s.db
  drafts : s.db invoiceDrafts = assignWhere (fun d => decide (d ∈ handled))
    (handledDraft cfg time lookup) (db invoiceDrafts)
  owners : ∀ o' ∈ s.db ownedInvoices, ∃ o ∈ db ownedInvoices, o'.draftId = o.draftId ∧
    (o'.providerInvoiceId = o.providerInvoiceId ∨ ∃ d ∈ handled, ∃ invoice,
      o.draftId = some d.id ∧ lookedUp lookup d.tag = .ok (some invoice) ∧
        o'.providerInvoiceId = some invoice.id)
  batches : s.db invoiceBatches = db invoiceBatches
  unsettled : ∀ batchId, .invoices (.settle batchId time) ∉ s.performed

variable {db : Database Row}

theorem Done.initial (hc : metadata.Consistent db) : Done cfg time lookup db [] ⟨db, []⟩ where
  consistent := hc
  drafts := (assignWhere_none (by simp)).symm
  owners o ho := ⟨o, ho, rfl, .inl rfl⟩
  batches := rfl
  unsettled _ h := absurd h (by simp)

/-- Ids tell the rows of a table apart. -/
theorem eq_of_id (hc : metadata.Consistent db) {d d' : InvoiceDraftRow}
    (hd : d ∈ db invoiceDrafts) (hd' : d' ∈ db invoiceDrafts) (hid : d.id = d'.id) : d = d' :=
  (hc invoiceDrafts).eq_of_key hd hd' hid

/-- One more draft is written by its id. -/
theorem assign_next (hc : metadata.Consistent db) {handled : List InvoiceDraftRow}
    {d : InvoiceDraftRow} (hd : d ∈ db invoiceDrafts) (hnew : d ∉ handled)
    {assign : InvoiceDraftRow → InvoiceDraftRow} (hassign : assign d = handledDraft cfg time lookup d) :
    assignWhere (fun d' : InvoiceDraftRow => d'.id == d.id) assign
        (assignWhere (fun d => decide (d ∈ handled)) (handledDraft cfg time lookup)
          (db invoiceDrafts)) =
      assignWhere (fun d' => decide (d' ∈ handled ++ [d])) (handledDraft cfg time lookup)
        (db invoiceDrafts) := by
  unfold assignWhere
  rw [List.map_map]
  refine List.map_congr_left fun r hr => ?_
  by_cases hrd : r = d
  · subst hrd
    simp [hnew, hassign]
  · have hid : r.id ≠ d.id := fun hid => hrd (eq_of_id hc hr hd hid)
    by_cases hmem : r ∈ handled
    · simp [hmem, hid, handledDraft_id]
    · simp [hmem, hid, hrd]

theorem mem_due {d : InvoiceDraftRow} : d ∈ due time db ↔
    d ∈ db invoiceDrafts ∧ d.status = .unknown ∧ d.nextAttemptAt ≤ time := by
  simp [due]

/-- The invoice that a handled draft has was found for it, or it had it before. -/
theorem handledDraft_invoice (cfg : TrialSettings) (time : ℤ)
    (lookup : String → SdkAnswer SdkInvoice) (d : InvoiceDraftRow) :
    (handledDraft cfg time lookup d).providerInvoiceId = d.providerInvoiceId ∨
      ∃ invoice, lookedUp lookup d.tag = .ok (some invoice) ∧
        (handledDraft cfg time lookup d).providerInvoiceId = some invoice.id := by
  unfold handledDraft
  split
  · next invoice hfound => exact .inr ⟨invoice, hfound, rfl⟩
  · exact .inl rfl
  · exact .inl rfl

/-- No other row has an invoice that is found. -/
theorem Done.free {handled : List InvoiceDraftRow} {s : PassState} (hready : Ready time lookup db)
    (h : Done cfg time lookup db handled s) (hdue : ∀ d ∈ handled, d ∈ due time db)
    {d : InvoiceDraftRow} (hd : d ∈ due time db) {invoice : ProviderInvoice}
    (hfound : lookedUp lookup d.tag = .ok (some invoice)) :
    (∀ d' ∈ s.db invoiceDrafts, d'.id ≠ d.id →
      sameNonNull (some invoice.id) d'.providerInvoiceId = false) ∧
    ∀ o ∈ s.db ownedInvoices, o.draftId ≠ some d.id →
      sameNonNull (some invoice.id) o.providerInvoiceId = false := by
  have hother : ∀ r ∈ handled, r.id ≠ d.id → ∀ invoice', lookedUp lookup r.tag =
      .ok (some invoice') → invoice'.id ≠ invoice.id := by
    intro r hr hne invoice' hfound' hid
    exact hne (congrArg _ (hready.distinct r (hdue r hr) d hd invoice' invoice hfound' hfound hid))
  refine ⟨fun d' hd' hne => ?_, fun o' ho' hne => ?_⟩
  · rw [h.drafts] at hd'
    rw [Bool.eq_false_iff, ne_eq, sameNonNull_iff]
    rintro ⟨id, hid, hid'⟩
    obtain rfl := Option.some.inj hid
    rcases mem_assignWhere.mp hd' with ⟨r, hr, hmem, rfl⟩ | ⟨hr, -⟩
    · rw [handledDraft_id] at hne
      have hmem : r ∈ handled := of_decide_eq_true hmem
      rcases handledDraft_invoice cfg time lookup r with
        hsame | ⟨invoice', hfound', hsome⟩
      · exact hready.drafts d hd invoice hfound r hr hne (hsame.symm.trans hid')
      · rw [hsome] at hid'
        exact hother r hmem hne invoice' hfound' (Option.some.inj hid')
    · exact hready.drafts d hd invoice hfound d' hr hne hid'
  · rw [Bool.eq_false_iff, ne_eq, sameNonNull_iff]
    rintro ⟨id, hid, hid'⟩
    obtain rfl := Option.some.inj hid
    obtain ⟨o, ho, hdraft, hsame | ⟨r, hmem, invoice', hr, hfound', hsome⟩⟩ := h.owners o' ho'
    · exact hready.owners d hd invoice hfound o ho (hdraft ▸ hne) (hsame.symm.trans hid')
    · rw [hsome] at hid'
      refine hother r hmem (fun hrd => hne ?_) invoice' hfound' (Option.some.inj hid')
      rw [hdraft, hr, hrd]

/-- The transaction after a lookup that answered. -/
abbrev reconcileOp (cfg : TrialSettings) (time : ℤ) (d : InvoiceDraftRow)
    (invoice : Option ProviderInvoice) : StoreOp :=
  .invoices (.reconcile ⟨toDraft d, invoice, time⟩ (limitsOf cfg d))

theorem Done.step {handled : List InvoiceDraftRow} {s : PassState} (hready : Ready time lookup db)
    (h : Done cfg time lookup db handled s) (hdue : ∀ d ∈ handled, d ∈ due time db)
    {d : InvoiceDraftRow} (hd : d ∈ due time db) (hnew : d ∉ handled)
    {invoice : Option ProviderInvoice} (hanswer : lookedUp lookup d.tag = .ok invoice) :
    ((reconcileOp cfg time d invoice).apply s.db).1 = .ok () ∧
      Done cfg time lookup db (handled ++ [d]) ⟨((reconcileOp cfg time d invoice).apply s.db).2,
        s.performed ++ [reconcileOp cfg time d invoice]⟩ := by
  have hmem := (mem_due.mp hd).1
  have hstored : d ∈ s.db invoiceDrafts := by
    rw [h.drafts]
    exact mem_assignWhere.mpr (.inr ⟨hmem, by simpa using hnew⟩)
  have hconsistent := StoreOp.apply_consistent h.consistent (reconcileOp cfg time d invoice)
  have hbatches : ((reconcileOp cfg time d invoice).apply s.db).2 invoiceBatches =
      s.db invoiceBatches :=
    StoreOp.apply_frame _ (by simp [StoreOp.tables, InvoiceStoreOp.tables]) _
  have hunsettled : ∀ batchId, .invoices (.settle batchId time) ∉
      s.performed ++ [reconcileOp cfg time d invoice] := by
    intro batchId hperformed
    rcases List.mem_append.mp hperformed with hold | hlast
    · exact h.unsettled batchId hold
    · simp [reconcileOp] at hlast
  have howners : ∀ o' ∈ s.db ownedInvoices, ∃ o ∈ db ownedInvoices, o'.draftId = o.draftId ∧
      (o'.providerInvoiceId = o.providerInvoiceId ∨ ∃ d' ∈ handled ++ [d], ∃ invoice,
        o.draftId = some d'.id ∧ lookedUp lookup d'.tag = .ok (some invoice) ∧
          o'.providerInvoiceId = some invoice.id) := by
    intro o' ho'
    obtain ⟨o, ho, hdraft, hsame | ⟨r, hr, hrest⟩⟩ := h.owners o' ho'
    · exact ⟨o, ho, hdraft, .inl hsame⟩
    · exact ⟨o, ho, hdraft, .inr ⟨r, List.mem_append.mpr (.inl hr), hrest⟩⟩
  cases invoice with
  | none =>
      have happly := miss_apply h.consistent (limitsOf cfg d) time hstored (rfl : (toDraft d).id = d.id)
      refine ⟨by rw [happly], hconsistent, ?_, ?_, hbatches.trans h.batches, hunsettled⟩
      · rw [happly]
        change Database.set s.db invoiceDrafts _ invoiceDrafts = _
        rw [Database.set_self, h.drafts]
        exact assign_next hready.consistent hmem hnew (handledDraft_missed hanswer).symm
      · intro o' ho'
        have howned : ((reconcileOp cfg time d none).apply s.db).2 ownedInvoices =
            s.db ownedInvoices := by
          rw [happly]
          simp only [set_drafts_owned]
        have ho' : o' ∈ ((reconcileOp cfg time d none).apply s.db).2 ownedInvoices := ho'
        rw [howned] at ho'
        exact howners o' ho'
  | some invoice =>
      have hfree := h.free hready hdue hd hanswer
      obtain ⟨db', hok, hdrafts⟩ := transition_ok h.consistent
        (t := .created ⟨d.id, invoice.id, time⟩) hfree.1 hfree.2
      have happly : (reconcileOp cfg time d (some invoice)).apply s.db = (.ok (), db') := hok
      have howned := (transition_changes (.created ⟨d.id, invoice.id, time⟩) s.db () db'
        ((atomically_ok _).mp hok)).2
      refine ⟨by rw [happly], hconsistent, ?_, ?_, hbatches.trans h.batches, hunsettled⟩
      · rw [happly]
        change db' invoiceDrafts = _
        rw [hdrafts, h.drafts]
        exact assign_next hready.consistent hmem hnew (handledDraft_found hanswer).symm
      · rw [happly]
        intro o' ho'
        have ho' : o' ∈ db' ownedInvoices := ho'
        rw [howned] at ho'
        rcases mem_assignWhere.mp ho' with ⟨o₁, ho₁, hbound, rfl⟩ | ⟨ho₁, -⟩
        · obtain ⟨o, ho, hdraft, -⟩ := howners o₁ ho₁
          refine ⟨o, ho, hdraft, .inr ⟨d, List.mem_append.mpr (.inr (by simp)), invoice, ?_, hanswer,
            rfl⟩⟩
          exact hdraft ▸ beq_iff_eq.mp hbound
        · exact howners o' ho₁

/-- A draft whose lookup raised stays as it is. -/
theorem Done.skip {handled : List InvoiceDraftRow} {s : PassState}
    (h : Done cfg time lookup db handled s) {d : InvoiceDraftRow}
    {e : ProviderError} (herror : lookedUp lookup d.tag = .error e) :
    Done cfg time lookup db (handled ++ [d]) s where
  consistent := h.consistent
  drafts := by
    rw [h.drafts]
    refine List.map_congr_left fun r _ => ?_
    by_cases hrd : r = d
    · subst hrd
      simp [handledDraft_error herror]
    · simp [hrd]
  owners o' ho' := by
    obtain ⟨o, ho, hdraft, hsame | ⟨r, hr, hrest⟩⟩ := h.owners o' ho'
    · exact ⟨o, ho, hdraft, .inl hsame⟩
    · exact ⟨o, ho, hdraft, .inr ⟨r, List.mem_append.mpr (.inl hr), hrest⟩⟩
  batches := h.batches
  unsettled := h.unsettled

/-! ### The two loops -/

theorem callStore_run (time : ℤ) (lookup : String → SdkAnswer SdkInvoice) (op : StoreOp)
    (s : PassState) :
    (callStore op).run (answerCall time lookup) s =
      (match (op.apply s.db).1 with
        | .ok r => .ok r
        | .error e => .error (.store e), ⟨(op.apply s.db).2, s.performed ++ [op]⟩) := by
  unfold callStore
  rw [run_call]
  simp only [answerCall]
  cases (op.apply s.db).1 <;> rfl

/-- What is left of the drafts, as the loop over them goes. -/
inductive Passed (cfg : TrialSettings) (time : ℤ) (lookup : String → SdkAnswer SdkInvoice)
    (db : Database Row) (handled ds : List InvoiceDraftRow) (batches : List BatchId) :
    Except Failure (ℕ × List BatchId) × PassState → Prop
  | all {n : ℕ} {batches' : List BatchId} {s : PassState} :
      (∀ d ∈ ds, ¬ Permanent lookup d) →
      (∀ batchId, batchId ∈ batches' ↔ batchId ∈ batches ∨
        ∃ d ∈ ds, Answered lookup d ∧ d.batchId = batchId) →
      Done cfg time lookup db (handled ++ ds) s →
      Passed cfg time lookup db handled ds batches (.ok (n, batches'), s)
  | left (before : List InvoiceDraftRow) {after : List InvoiceDraftRow} {d : InvoiceDraftRow}
      {e : Failure} {s : PassState} : ds = before ++ d :: after → Permanent lookup d →
      Done cfg time lookup db (handled ++ before) s →
      Passed cfg time lookup db handled ds batches (.error e, s)

theorem reconcileDrafts_answered {d : InvoiceDraftRow} {ds : List InvoiceDraft}
    {invoice : Option ProviderInvoice} (hanswer : lookedUp lookup d.tag = .ok invoice)
    {s : PassState} (hok : ((reconcileOp cfg time d invoice).apply s.db).1 = .ok ())
    {n : ℕ} {batches : List BatchId} :
    (reconcileDrafts cfg time (toDraft d :: ds) n batches).run (answerCall time lookup) s =
      (reconcileDrafts cfg time ds (if invoice.isSome then n + 1 else n)
        (if batches.contains d.batchId then batches else batches ++ [d.batchId])).run
          (answerCall time lookup) ⟨((reconcileOp cfg time d invoice).apply s.db).2,
            s.performed ++ [reconcileOp cfg time d invoice]⟩ := by
  have hlookup : (findInvoice (toDraft d).tag).run (answerCall time lookup) s = (.ok (.ok invoice), s) := by
    rw [findInvoice_run]
    rw [show lookedUp lookup (toDraft d).tag = .ok invoice from hanswer]
  have hstore := callStore_run time lookup (reconcileOp cfg time d invoice) s
  rw [hok] at hstore
  conv_lhs => unfold reconcileDrafts
  rw [run_bind, hlookup]
  simp only
  rw [run_bind]
  have hstore : (callStore (.invoices (.reconcile ⟨toDraft d, invoice, time⟩
      ⟨cfg.invoiceMaxAttempts, cfg.invoiceReconciliationMaxAttempts,
        backoff cfg (toDraft d).attempts⟩))).run (answerCall time lookup) s = _ := hstore
  rw [hstore]
  rfl

theorem reconcileDrafts_error {d : InvoiceDraftRow} {ds : List InvoiceDraft} {e : ProviderError}
    (herror : lookedUp lookup d.tag = .error e) {s : PassState} {n : ℕ} {batches : List BatchId} :
    (reconcileDrafts cfg time (toDraft d :: ds) n batches).run (answerCall time lookup) s =
      if e.kind.isTransient then
        (reconcileDrafts cfg time ds n batches).run (answerCall time lookup) s
      else (.error (.provider e), s) := by
  have hlookup : (findInvoice (toDraft d).tag).run (answerCall time lookup) s = (.ok (.error e), s) := by
    rw [findInvoice_run]
    rw [show lookedUp lookup (toDraft d).tag = .error e from herror]
  conv_lhs => unfold reconcileDrafts
  rw [run_bind, hlookup]
  simp only
  split_ifs <;> rfl

/-- One draft more, which the loop has just handled. -/
theorem Passed.cons {handled handled' ds : List InvoiceDraftRow} {d : InvoiceDraftRow}
    {batches batches' : List BatchId} {r : Except Failure (ℕ × List BatchId) × PassState}
    (h : Passed cfg time lookup db handled' ds batches' r) (hperm : ¬ Permanent lookup d)
    (hbatches : ∀ batchId, batchId ∈ batches' ↔
      batchId ∈ batches ∨ (Answered lookup d ∧ d.batchId = batchId))
    (hhandled : ∀ rest, handled ++ d :: rest = handled' ++ rest) :
    Passed cfg time lookup db handled (d :: ds) batches r := by
  cases h with
  | all hno hmem hdone =>
      refine .all (by simpa [hperm] using hno) (fun batchId => ?_) (hhandled ds ▸ hdone)
      rw [hmem, hbatches]
      simp [or_assoc]
  | left before hds hperm' hdone =>
      exact .left (d :: before) (by rw [hds]; rfl) hperm' (hhandled before ▸ hdone)

theorem reconcileDrafts_passed (hready : Ready time lookup db) {handled ds : List InvoiceDraftRow}
    (hdue : ∀ d ∈ handled ++ ds, d ∈ due time db) (hnodup : (handled ++ ds).Nodup)
    {n : ℕ} {batches : List BatchId} {s : PassState} (h : Done cfg time lookup db handled s) :
    Passed cfg time lookup db handled ds batches
      ((reconcileDrafts cfg time (ds.map toDraft) n batches).run (answerCall time lookup) s) := by
  induction ds generalizing handled n batches s with
  | nil => exact .all (by simp) (by simp) (by simpa using h)
  | cons d ds ih =>
      have hd : d ∈ due time db := hdue d (by simp)
      have hnew : d ∉ handled := fun hmem =>
        (List.nodup_append.mp hnodup).2.2 d hmem d (by simp) rfl
      have hhandled : ∀ d ∈ handled, d ∈ due time db := fun r hr => hdue r (by simp [hr])
      have hnext : ∀ rest, handled ++ d :: rest = (handled ++ [d]) ++ rest := by simp
      cases hanswer : lookedUp lookup d.tag with
      | ok invoice =>
          obtain ⟨hok, hdone⟩ := h.step hready hhandled hd hnew hanswer
          rw [List.map_cons, reconcileDrafts_answered hanswer hok]
          have hds := hnext ds
          refine (ih (by rwa [← hds]) (by rwa [← hds]) hdone).cons (fun hperm => ?_)
            (fun batchId => ?_) hnext
          · obtain ⟨e, he, -⟩ := hperm
            rw [hanswer] at he
            exact absurd he (by simp)
          · have hansweredd : Answered lookup d := ⟨invoice, hanswer⟩
            split_ifs with hold
            · have hold : d.batchId ∈ batches := by simpa using hold
              constructor
              · exact fun hmem => .inl hmem
              · rintro (hmem | ⟨-, rfl⟩)
                · exact hmem
                · exact hold
            · simp [hansweredd, eq_comm]
      | error e =>
          rw [List.map_cons, reconcileDrafts_error hanswer]
          split_ifs with htransient
          · have hds := hnext ds
            refine (ih (by rwa [← hds]) (by rwa [← hds]) (h.skip hanswer)).cons (fun hperm => ?_)
              (fun batchId => ?_) hnext
            · obtain ⟨e', he', htransient'⟩ := hperm
              rw [hanswer] at he'
              obtain rfl := Except.error.inj he'
              simp [htransient] at htransient'
            · have hnot : ¬ Answered lookup d := by
                rintro ⟨invoice, hinvoice⟩
                rw [hanswer] at hinvoice
                exact absurd hinvoice (by simp)
              simp [hnot]
          · refine .left [] rfl ⟨e, hanswer, by simpa using htransient⟩ ?_
            simpa using h

/-- The batch shows the state of its drafts. -/
def Shown (db : Database Row) (batchId : BatchId) : Prop :=
  ∀ b ∈ db invoiceBatches, b.id = batchId →
    b.status = settledStatus b (draftsOf batchId db) ∧ b.leaseUntil = none

theorem settled_batches (b : InvoiceBatchRow) (db : Database Row) :
    settled b time db invoiceBatches = assignWhere (fun b' : InvoiceBatchRow => b'.id == b.id)
      (settledAt (settledStatus b (draftsOf b.id db)) time) (db invoiceBatches) := by
  unfold settled
  rw [Database.set_of_ne _ (by decide), Database.set_self]

theorem settled_drafts (b : InvoiceBatchRow) (time : ℤ) (db : Database Row) :
    settled b time db invoiceDrafts = db invoiceDrafts := by
  unfold settled
  rw [Database.set_of_ne _ (by decide), Database.set_of_ne _ (by decide)]

/-- A settle shows its batch, and leaves the others as they are. -/
theorem settled_shown (hc : metadata.Consistent db) {b : InvoiceBatchRow}
    (hb : b ∈ db invoiceBatches) {batchId : BatchId} (h : batchId = b.id ∨ Shown db batchId) :
    Shown (settled b time db) batchId := by
  intro b' hb' hid
  have hdrafts : draftsOf batchId (settled b time db) = draftsOf batchId db := by
    unfold draftsOf
    rw [settled_drafts]
  rw [hdrafts]
  rw [settled_batches] at hb'
  rcases mem_assignWhere.mp hb' with ⟨r, hr, hrid, rfl⟩ | ⟨hr, hrid⟩
  · obtain rfl := (hc invoiceBatches).eq_of_key hr hb (beq_iff_eq.mp hrid)
    obtain rfl : r.id = batchId := hid
    exact ⟨rfl, rfl⟩
  · rcases h with rfl | h
    · simp [hid] at hrid
    · exact h b' hr hid

/-- The loop over the batches. -/
theorem settleAll_run (time : ℤ) (lookup : String → SdkAnswer SdkInvoice) {ids : List BatchId}
    {s : PassState} (hc : metadata.Consistent s.db)
    (hids : ∀ batchId ∈ ids, ∃ b ∈ s.db invoiceBatches, b.id = batchId) :
    ∃ s', (Program.forEach (fun batchId => do
        let _ ← callStore (.invoices (.settle batchId time))) ids : Service Unit).run
          (answerCall time lookup) s = (.ok (), s') ∧
      s'.performed = s.performed ++ ids.map (fun batchId => .invoices (.settle batchId time)) ∧
      s'.db invoiceDrafts = s.db invoiceDrafts ∧
      ∀ batchId, batchId ∈ ids ∨ Shown s.db batchId → Shown s'.db batchId := by
  induction ids generalizing s with
  | nil => exact ⟨s, rfl, by simp, rfl, by simp⟩
  | cons batchId ids ih =>
      obtain ⟨b, hb, rfl⟩ := hids batchId (by simp)
      have happly := settle_apply hc hb time
      have hstore := callStore_run time lookup
        (.invoices (.settle b.id time)) s
      rw [happly] at hstore
      have hc' := StoreOp.apply_consistent hc (.invoices (.settle b.id time))
      rw [happly] at hc'
      obtain ⟨s', hrun, hperformed, hdrafts, hshown⟩ := ih
        (s := ⟨settled b time s.db, s.performed ++ [.invoices (.settle b.id time)]⟩) hc'
        (fun batchId' hmem => by
          obtain ⟨b', hb', hid⟩ := hids batchId' (by simp [hmem])
          change ∃ b' ∈ settled b time s.db invoiceBatches, _
          rw [settled_batches]
          refine ⟨_, List.mem_map.mpr ⟨b', hb', rfl⟩, ?_⟩
          split_ifs <;> exact hid)
      refine ⟨s', ?_, ?_, ?_, fun batchId' h => hshown batchId' ?_⟩
      · unfold Program.forEach
        rw [run_bind, run_bind, hstore]
        exact hrun
      · rw [hperformed]
        simp
      · rw [hdrafts]
        exact settled_drafts b time s.db
      · rcases h with hmem | h
        · rcases List.mem_cons.mp hmem with rfl | hmem
          · exact .inr (settled_shown hc hb (.inl rfl))
          · exact .inl hmem
        · exact .inr (settled_shown hc hb (.inr h))

/-! ### The whole pass -/

/-- The drafts in the order of the pass. -/
def dueOrder (time : ℤ) (db : Database Row) : List InvoiceDraftRow :=
  (orderBy InvoiceDraftRow.updatedAt (due time db)).take 100

theorem dueOrder_perm (hlimit : (due time db).length ≤ 100) :
    (dueOrder time db).Perm (due time db) := by
  have hperm : (orderBy InvoiceDraftRow.updatedAt (due time db)).Perm (due time db) :=
    List.perm_insertionSort _ _
  unfold dueOrder
  rwa [List.take_of_length_le (hperm.length_eq ▸ hlimit)]

/-- How a pass ends: with everything done, or at a permanent error. -/
inductive Ended (cfg : TrialSettings) (time : ℤ) (lookup : String → SdkAnswer SdkInvoice)
    (db : Database Row) (s : PassState) : Prop
  | all {s' : PassState} {ids : List BatchId} : (∀ d ∈ due time db, ¬ Permanent lookup d) →
      Done cfg time lookup db (dueOrder time db) s' →
      s.performed = s'.performed ++ ids.map (fun batchId => .invoices (.settle batchId time)) →
      s.db invoiceDrafts = s'.db invoiceDrafts →
      (∀ d ∈ due time db, Answered lookup d → d.batchId ∈ ids ∧ Shown s.db d.batchId) →
      Ended cfg time lookup db s
  | left {before after : List InvoiceDraftRow} {d : InvoiceDraftRow} :
      dueOrder time db = before ++ d :: after → Permanent lookup d →
      Done cfg time lookup db before s → Ended cfg time lookup db s

/-- The pass is its two loops, one after the other. -/
theorem reconcileInvoices_run (cfg : TrialSettings) (setOrder : List BatchId → List BatchId) :
    (reconcileInvoices cfg setOrder).run (answerCall time lookup) ⟨db, []⟩ =
      match (reconcileDrafts cfg time ((dueOrder time db).map toDraft) 0 []).run
        (answerCall time lookup) ⟨db, [.invoices (.unknown time 100)]⟩ with
      | (.ok r, s) => ((Program.forEach (fun batchId => do
          let _ ← callStore (.invoices (.settle batchId time))) (setOrder r.2) :
            Service Unit) >>= fun _ => pure r.1).run (answerCall time lookup) s
      | (.error e, s) => (.error e, s) := by
  have hnow : (now : Service ℤ).run (answerCall time lookup) ⟨db, []⟩ = (.ok time, ⟨db, []⟩) := rfl
  have hunknown : (callStore (.invoices (.unknown time 100))).run (answerCall time lookup)
      ⟨db, []⟩ = (.ok ((dueOrder time db).map toDraft), ⟨db, [.invoices (.unknown time 100)]⟩) :=
    callStore_run time lookup (.invoices (.unknown time 100)) ⟨db, []⟩
  unfold reconcileInvoices
  rw [run_bind, hnow]
  simp only
  rw [run_bind, hunknown]
  simp only
  rw [run_bind]
  generalize (reconcileDrafts cfg time ((dueOrder time db).map toDraft) 0 []).run
    (answerCall time lookup) ⟨db, [.invoices (.unknown time 100)]⟩ = r
  rcases r with ⟨_ | _, _⟩ <;> rfl

theorem afterPass_ended (hready : Ready time lookup db) {setOrder : List BatchId → List BatchId}
    (hset : ∀ ids, (setOrder ids).Perm ids) :
    Ended cfg time lookup db (afterPass cfg time lookup setOrder db) := by
  have hperm := dueOrder_perm hready.limit
  have hdue : ∀ d ∈ dueOrder time db, d ∈ due time db := fun d => hperm.mem_iff.mp
  have hnodup : (dueOrder time db).Nodup :=
    hperm.nodup_iff.mpr (((hready.consistent invoiceDrafts).nodup).sublist List.filter_sublist)
  have hstart : Done cfg time lookup db [] ⟨db, [.invoices (.unknown time 100)]⟩ :=
    { Done.initial hready.consistent with unsettled := by simp }
  have hpassed : Passed cfg time lookup db [] (dueOrder time db) []
      ((reconcileDrafts cfg time ((dueOrder time db).map toDraft) 0 []).run
        (answerCall time lookup) ⟨db, [.invoices (.unknown time 100)]⟩) :=
    reconcileDrafts_passed hready hdue hnodup hstart
  have hrun : afterPass cfg time lookup setOrder db = _ :=
    congrArg Prod.snd (reconcileInvoices_run cfg setOrder)
  generalize (reconcileDrafts cfg time ((dueOrder time db).map toDraft) 0 []).run
    (answerCall time lookup) ⟨db, [.invoices (.unknown time 100)]⟩ = r at hpassed hrun
  cases hpassed with
  | @all n batches s hno hmem hdone =>
      have hbatch : ∀ batchId ∈ setOrder batches, ∃ d ∈ due time db, Answered lookup d ∧
          d.batchId = batchId := by
        intro batchId hbatchId
        rcases (hmem batchId).mp ((hset batches).mem_iff.mp hbatchId) with hnil | ⟨d, hd, hrest⟩
        · simp at hnil
        · exact ⟨d, hdue d hd, hrest⟩
      have hstored : ∀ batchId ∈ setOrder batches, ∃ b ∈ s.db invoiceBatches, b.id = batchId := by
        intro batchId hbatchId
        obtain ⟨d, hd, -, rfl⟩ := hbatch batchId hbatchId
        rw [hdone.batches]
        exact hready.batches d (mem_due.mp hd).1
      obtain ⟨s', hsettle, hperformed, hdrafts, hshown⟩ :=
        settleAll_run time lookup hdone.consistent hstored
      have hs' : afterPass cfg time lookup setOrder db = s' := by
        rw [hrun]
        simp only
        rw [run_bind, hsettle]
        rfl
      rw [hs']
      refine .all (fun d hd => hno d (hperm.mem_iff.mpr hd)) hdone hperformed hdrafts
        fun d hd hanswered => ?_
      have hin : d.batchId ∈ setOrder batches := (hset batches).mem_iff.mpr
        ((hmem d.batchId).mpr (.inr ⟨d, hperm.mem_iff.mpr hd, hanswered, rfl⟩))
      exact ⟨hin, hshown d.batchId (.inl hin)⟩
  | left before hds hpermanent hdone =>
      rw [hrun]
      exact .left hds hpermanent hdone

/-! ### What was handled -/

theorem Done.stays {handled : List InvoiceDraftRow} {s : PassState}
    (h : Done cfg time lookup db handled s) {d : InvoiceDraftRow} (hd : d ∈ db invoiceDrafts)
    (hsame : d ∈ handled → handledDraft cfg time lookup d = d) : d ∈ s.db invoiceDrafts := by
  rw [h.drafts]
  by_cases hmem : d ∈ handled
  · exact mem_assignWhere.mpr (.inl ⟨d, hd, decide_eq_true hmem, hsame hmem⟩)
  · exact mem_assignWhere.mpr (.inr ⟨hd, decide_eq_false hmem⟩)

theorem Done.reached {handled : List InvoiceDraftRow} {s : PassState}
    (h : Done cfg time lookup db handled s) {d : InvoiceDraftRow} (hd : d ∈ db invoiceDrafts)
    (hmem : d ∈ handled) : handledDraft cfg time lookup d ∈ s.db invoiceDrafts := by
  rw [h.drafts]
  exact mem_assignWhere.mpr (.inl ⟨d, hd, decide_eq_true hmem, rfl⟩)

theorem not_answered {d : InvoiceDraftRow} (h : ¬ Answered lookup d) :
    ∃ e, lookedUp lookup d.tag = .error e := by
  cases hanswer : lookedUp lookup d.tag with
  | ok invoice => exact absurd ⟨invoice, hanswer⟩ h
  | error e => exact ⟨e, rfl⟩

/-- Only drafts that are due and whose lookups answer are changed. -/
theorem Done.changed {handled : List InvoiceDraftRow} {s : PassState}
    (h : Done cfg time lookup db handled s) {d : InvoiceDraftRow} (hd : d ∈ db invoiceDrafts)
    (hgone : d ∉ s.db invoiceDrafts) : d ∈ handled ∧ Answered lookup d := by
  by_contra hnot
  refine hgone (h.stays hd fun hmem => ?_)
  obtain ⟨e, herror⟩ := not_answered fun hanswered => hnot ⟨hmem, hanswered⟩
  exact handledDraft_error herror

theorem handled_of_all {s s' : PassState} {ids : List BatchId}
    (hlimit : (due time db).length ≤ 100)
    (hdone : Done cfg time lookup db (dueOrder time db) s')
    (hperformed : s.performed = s'.performed ++
      ids.map fun batchId => .invoices (.settle batchId time))
    (hdrafts : s.db invoiceDrafts = s'.db invoiceDrafts)
    (hsettled : ∀ d ∈ due time db, Answered lookup d → d.batchId ∈ ids ∧ Shown s.db d.batchId) :
    Handled cfg time lookup db s := by
  have hperm := dueOrder_perm hlimit
  have hreached : ∀ d ∈ due time db, handledDraft cfg time lookup d ∈ s.db invoiceDrafts := by
    intro d hd
    rw [hdrafts]
    exact hdone.reached (mem_due.mp hd).1 (hperm.mem_iff.mpr hd)
  refine ⟨fun d hd invoice hfound => ?_, fun d hd hmissed => ?_, fun d hd htransient => ?_,
    fun d hd hgone => ?_⟩
  · refine ⟨_, hreached d hd, handledDraft_id d, ?_⟩
    rw [handledDraft_found hfound]
    exact ⟨rfl, rfl⟩
  · refine ⟨_, hreached d hd, handledDraft_id d, ?_⟩
    rw [handledDraft_missed hmissed]
    exact missDraft_counted cfg time d
  · obtain ⟨e, herror, -⟩ := htransient
    have hsame := hreached d hd
    rwa [handledDraft_error herror] at hsame
  · rw [hdrafts] at hgone
    obtain ⟨hmem, hanswered⟩ := hdone.changed hd hgone
    obtain ⟨hid, hshown⟩ := hsettled d (hperm.mem_iff.mp hmem) hanswered
    refine ⟨?_, hshown⟩
    obtain ⟨before, after, hids⟩ := List.append_of_mem hid
    refine ⟨s'.performed ++ before.map fun batchId => .invoices (.settle batchId time),
      after.map fun batchId => .invoices (.settle batchId time), ?_, fun op hop => ?_⟩
    · rw [hperformed, hids]
      simp
    · obtain ⟨batchId, -, rfl⟩ := List.mem_map.mp hop
      simp [StoreOp.tables, InvoiceStoreOp.tables]

/-- Before a batch is settled, a draft whose lookup answers is not handled: either it was
changed, or it was not reached. -/
theorem not_handled {s : PassState} (hc : metadata.Consistent db) {before : List InvoiceDraftRow}
    (hdone : Done cfg time lookup db before s) {a : InvoiceDraftRow} (ha : a ∈ due time db) (hanswered : Answered lookup a) :
    ¬ Handled cfg time lookup db s := by
  intro hhandled
  obtain ⟨hmem, hunknown, -⟩ := mem_due.mp ha
  by_cases hbefore : a ∈ before
  · -- the draft was changed, and no batch was settled
    have hgone : a ∉ s.db invoiceDrafts := by
      intro hstays
      rw [hdone.drafts] at hstays
      rcases mem_assignWhere.mp hstays with ⟨r, hr, -, hra⟩ | ⟨-, hnot⟩
      · have hid : r.id = a.id := by rw [← hra, handledDraft_id]
        obtain rfl := eq_of_id hc hr hmem hid
        exact handledDraft_changed hunknown hanswered hra
      · exact absurd hbefore (of_decide_eq_false hnot)
    obtain ⟨earlier, later, hperformed, -⟩ := (hhandled.settled a hmem hgone).performed
    exact hdone.unsettled a.batchId (hperformed ▸ by simp)
  · -- the draft was not reached
    have hstays := hdone.stays hmem fun h => absurd h hbefore
    have hsame : ∀ d' ∈ s.db invoiceDrafts, d'.id = a.id → d' = a :=
      fun d' hd' hid => eq_of_id hdone.consistent hd' hstays hid
    obtain ⟨invoice, hinvoice⟩ := hanswered
    cases invoice with
    | some invoice =>
        obtain ⟨d', hd', hid, hcreated, -⟩ := hhandled.found a ha invoice hinvoice
        rw [hsame d' hd' hid, hunknown] at hcreated
        exact absurd hcreated (by decide)
    | none =>
        obtain ⟨d', hd', hid, hcounted⟩ := hhandled.missed a ha hinvoice
        rw [hsame d' hd' hid] at hcounted
        exact hcounted.changed hunknown

/-- A pass handles its drafts independently exactly when no lookup of a due draft raises a
permanent error, or none answers at all. -/
theorem handled_iff (hready : Ready time lookup db) {setOrder : List BatchId → List BatchId}
    (hset : ∀ ids, (setOrder ids).Perm ids) :
    Handled cfg time lookup db (afterPass cfg time lookup setOrder db) ↔
      (∀ d ∈ due time db, ¬ Permanent lookup d) ∨ ∀ d ∈ due time db, ¬ Answered lookup d := by
  have hended : Ended cfg time lookup db (afterPass cfg time lookup setOrder db) :=
    afterPass_ended hready hset
  generalize afterPass cfg time lookup setOrder db = s at hended ⊢
  cases hended with
  | all hno hdone hperformed hdrafts hsettled =>
      exact iff_of_true (handled_of_all hready.limit hdone hperformed hdrafts hsettled) (.inl hno)
  | @left before after d hds hpermanent hdone =>
      have hd : d ∈ due time db := (dueOrder_perm hready.limit).mem_iff.mp (hds ▸ by simp)
      constructor
      · intro hhandled
        refine .inr fun a ha hanswered => ?_
        exact not_handled hready.consistent hdone ha hanswered hhandled
      · rintro (hno | hno)
        · exact absurd hpermanent (hno d hd)
        · refine ⟨fun a ha invoice hfound => absurd ⟨_, hfound⟩ (hno a ha),
            fun a ha hmissed => absurd ⟨_, hmissed⟩ (hno a ha), fun a ha htransient => ?_,
            fun a ha hgone => ?_⟩
          · obtain ⟨e, herror, -⟩ := htransient
            exact hdone.stays (mem_due.mp ha).1 fun _ => handledDraft_error herror
          · obtain ⟨hmem, hanswered⟩ := hdone.changed ha hgone
            have hdue : a ∈ due time db := (dueOrder_perm hready.limit).mem_iff.mp
              (hds ▸ List.mem_append.mpr (.inl hmem))
            exact absurd hanswered (hno a hdue)

/-! ### Two unknown drafts of one batch -/

def unknownDraft (id : DraftId) (ordinal : ℤ) (updatedAt : ℤ) : InvoiceDraftRow where
  id := id
  batchId := "b"
  ordinal := ordinal
  payerName := "Jon Snow"
  payerTaxId := "012.345.678-90"
  amount := 5000
  tag := "trial-draft:" ++ id
  status := .unknown
  providerInvoiceId := none
  attempts := 1
  reconcileAttempts := 0
  lastErrorCode := some "ProviderUnknownOutcomeError"
  createdAt := 0
  updatedAt := updatedAt
  nextAttemptAt := updatedAt

/-- Both drafts are due, the first one first. -/
def unknownDb : Database Row :=
  let rows := [unknownDraft "d0" 0 (seconds 1), unknownDraft "d1" 1 (seconds 2)]
  ((scheduledWorld.db.set invoiceDrafts rows).set ownedInvoices (rows.map trialOwner))

/-- The invoice of the second draft is there; the lookup of the first has its own answer. -/
def lookups (first : SdkAnswer SdkInvoice) (tag : String) : SdkAnswer SdkInvoice :=
  if tag = "trial-draft:d0" then first else [.ok ⟨"i"⟩]

theorem mem_unknownDb {d : InvoiceDraftRow} (hd : d ∈ unknownDb invoiceDrafts) :
    d = unknownDraft "d0" 0 (seconds 1) ∨ d = unknownDraft "d1" 1 (seconds 2) := by
  have hrows : ∀ d ∈ unknownDb invoiceDrafts,
      d = unknownDraft "d0" 0 (seconds 1) ∨ d = unknownDraft "d1" 1 (seconds 2) := by decide
  exact hrows d hd

theorem unknownDb_ready {first : SdkAnswer SdkInvoice} (hfirst : ∀ x, first.head? ≠ some (.ok x)) :
    Ready (seconds 10) (lookups first) unknownDb := by
  have hsecond : ∀ d ∈ due (seconds 10) unknownDb, ∀ invoice,
      lookedUp (lookups first) d.tag = .ok (some invoice) →
        d = unknownDraft "d1" 1 (seconds 2) := by
    intro d hd invoice hfound
    rcases mem_unknownDb (mem_due.mp hd).1 with rfl | rfl
    · have hanswer : lookups first (unknownDraft "d0" 0 (seconds 1)).tag = first := rfl
      unfold lookedUp at hfound
      rw [hanswer] at hfound
      match first, hfirst, hfound with
      | [], _, hfound => simp at hfound
      | .error e :: _, _, hfound => simp at hfound
      | .ok x :: _, hfirst, _ => exact absurd rfl (hfirst x)
    · rfl
  refine ⟨by decide, by decide, by decide, fun d hd d' hd' invoice invoice' h h' _ => ?_,
    fun d hd invoice h d' hd' _ => ?_, fun d hd invoice h o ho _ => ?_⟩
  · rw [hsecond d hd invoice h, hsecond d' hd' invoice' h']
  · have hnone : ∀ d ∈ unknownDb invoiceDrafts, d.providerInvoiceId = none := by decide
    simp [hnone d' hd']
  · have hnone : ∀ o ∈ unknownDb ownedInvoices, o.providerInvoiceId = none := by decide
    simp [hnone o ho]

/-- The first lookup finds nothing, the second an invoice. -/
theorem handled_iff_foundSecond :
    Handled {} (seconds 10) (lookups []) unknownDb
      (afterPass {} (seconds 10) (lookups []) id unknownDb) := by
  refine (handled_iff (unknownDb_ready (by simp)) fun _ => .refl _).mpr (.inl ?_)
  rintro d hd ⟨e, herror, -⟩
  rcases mem_unknownDb (mem_due.mp hd).1 with rfl | rfl
  · have hanswer : lookedUp (lookups []) (unknownDraft "d0" 0 (seconds 1)).tag = .ok none := rfl
    simp [hanswer] at herror
  · have hanswer : lookedUp (lookups []) (unknownDraft "d1" 1 (seconds 2)).tag =
        .ok (some ⟨"i", "trial-draft:d1"⟩) := by decide
    simp [hanswer] at herror

/-- A permanent error of the first lookup leaves the second draft unknown, whose invoice is
there. -/
theorem second_not_reached : Ready (seconds 10) (lookups [.error .inputErrors]) unknownDb ∧
    ¬ Handled {} (seconds 10) (lookups [.error .inputErrors]) unknownDb
      (afterPass {} (seconds 10) (lookups [.error .inputErrors]) id unknownDb) := by
  refine ⟨unknownDb_ready (by simp), fun hhandled => ?_⟩
  have hunknown : ∀ d ∈ (afterPass {} (seconds 10) (lookups [.error .inputErrors]) id
      unknownDb).db invoiceDrafts, d.status = .unknown := by decide
  obtain ⟨d, hd, -, hcreated, -⟩ := hhandled.found (unknownDraft "d1" 1 (seconds 2)) (by decide)
    ⟨"i", "trial-draft:d1"⟩ (by decide)
  rw [hunknown d hd] at hcreated
  exact absurd hcreated (by decide)

end StarkbankTrial.ReconcilePass
