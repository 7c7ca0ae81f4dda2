import StarkbankTrial.ReviewPages

/-!
# The credit status of listed invoices

The list returns a credit status for every draft, from the latest event that names its
invoice, and filters by the same status with a condition of its own. A draft without an
invoice is returned as not observed, but `NOT IN` is null for it as soon as some event names
an invoice at all.
-/
namespace StarkbankTrial.CreditFilters
open Domain RelationalTables DatabaseSchema SqlSelections ReviewCursors ReviewStore ReviewPages

/-- The query with another credit filter, or none. -/
def withCredit (query : ReviewQuery) (status : Option String) : ReviewQuery :=
  { query with creditStatus := status }

/-- The filter selects the drafts that the list without it returns with this status, and
counts as many. -/
structure CreditAgrees (db : Database Row) (query : ReviewQuery) (status : String) : Prop where
  selected : (invoicesSelect db (withCredit query (some status))).statement =
    (invoicesSelect db (withCredit query none)).statement.filter fun j =>
      (invoicePayload db j).creditStatus = status
  total : (invoicesSelect db (withCredit query (some status))).count =
    ((invoicesSelect db (withCredit query none)).statement.filter fun j =>
      (invoicePayload db j).creditStatus = status).length

/-- A draft of a batch that the list shows when it is not filtered by credit. -/
def Listed (db : Database Row) (query : ReviewQuery) (draft : InvoiceDraftRow)
    (batch : InvoiceBatchRow) : Prop :=
  batch.id = draft.batchId ∧ batch.runId ≠ smokeRunId ∧
    ∀ c ∈ invoiceFilters db (withCredit query none), holds (c (draft, batch)) = true

section
variable {db : Database Row} {query : ReviewQuery} {status : String}
  {j : InvoiceDraftRow × InvoiceBatchRow}

theorem mem_statement : j ∈ (invoicesSelect db query).statement ↔
    j ∈ invoicesJoin db ∧ holds (notSmoke (fun j => j.2.runId) j) = true ∧
      ∀ c ∈ invoiceFilters db query, holds (c j) = true := by
  simp [ReviewSelect.statement, invoicesSelect]

theorem listed_iff {draft : InvoiceDraftRow} {batch : InvoiceBatchRow}
    (hd : draft ∈ db .invoiceDrafts) (hb : batch ∈ db .invoiceBatches) :
    (draft, batch) ∈ (invoicesSelect db (withCredit query none)).statement ↔
      Listed db query draft batch := by
  simp [mem_statement, invoicesJoin, mem_innerJoin, hd, hb, equals, notSmoke, neg, Listed]

/-- The credit filter is one condition more. -/
theorem invoiceFilters_withCredit :
    (∀ c ∈ invoiceFilters db (withCredit query (some status)), holds (c j) = true) ↔
      (∀ c ∈ invoiceFilters db (withCredit query none), holds (c j) = true) ∧
        ∀ c ∈ creditConditions db (withCredit query (some status)), holds (c j) = true := by
  simp only [invoiceFilters, withCredit, List.mem_append, or_imp, forall_and,
    creditConditions, reduceCtorEq, if_false, List.not_mem_nil, false_implies, implies_true,
    timeConditions]
  tauto

/-! ### What the two formulations say -/

theorem eventInvoiceIds_isSome : ∀ v ∈ eventInvoiceIds db, v.isSome = true := by
  intro v hv
  obtain ⟨event, hevent, rfl⟩ := List.mem_map.mp hv
  simpa using (mem_selectWhere.mp hevent).2

theorem mem_eventInvoiceIds {x : InvoiceId} : some x ∈ eventInvoiceIds db ↔
    ∃ event ∈ db .webhookEvents, WebhookEventRow.invoiceId event = some x := by
  simp only [eventInvoiceIds, List.mem_map, mem_selectWhere, List.mem_singleton, forall_eq,
    holds_some]
  constructor
  · rintro ⟨event, ⟨hevent, -⟩, hid⟩
    exact ⟨event, hevent, hid⟩
  · rintro ⟨event, hevent, hid⟩
    exact ⟨event, ⟨hevent, by rw [hid]; rfl⟩, hid⟩

/-- The status returned is credited exactly for a draft whose invoice an event names. -/
theorem returned_credited : (creditedAt db j.1).isSome = true ↔
    ∃ x, j.1.providerInvoiceId = some x ∧ some x ∈ eventInvoiceIds db := by
  have hmax : (creditedAt db j.1).isSome = true ↔ ∃ event ∈ db .webhookEvents,
      holds (equals (WebhookEventRow.invoiceId event) j.1.providerInvoiceId) = true := by
    rw [creditedAt, List.isSome_max?_iff, ne_eq, List.map_eq_nil_iff, List.eq_nil_iff_forall_not_mem]
    simp
  rw [hmax]
  constructor
  · rintro ⟨event, hevent, heq⟩
    obtain ⟨x, hx, hd⟩ := holds_equals.mp heq
    exact ⟨x, hd, mem_eventInvoiceIds.mpr ⟨event, hevent, hx⟩⟩
  · rintro ⟨x, hd, hx⟩
    obtain ⟨event, hevent, hid⟩ := mem_eventInvoiceIds.mp hx
    exact ⟨event, hevent, holds_equals.mpr ⟨x, hid, hd⟩⟩

theorem returned_eq_credited : (invoicePayload db j).creditStatus = "credited" ↔
    ∃ x, j.1.providerInvoiceId = some x ∧ some x ∈ eventInvoiceIds db := by
  rw [← returned_credited]
  simp only [invoicePayload]
  split_ifs with h <;> simp [h]

theorem returned_eq_not_observed : (invoicePayload db j).creditStatus = "not_observed" ↔
    ¬ ∃ x, j.1.providerInvoiceId = some x ∧ some x ∈ eventInvoiceIds db := by
  rw [← returned_credited]
  simp only [invoicePayload]
  split_ifs with h <;> simp [h]

theorem credited_holds :
    (∀ c ∈ creditConditions db (withCredit query (some "credited")), holds (c j) = true) ↔
      (invoicePayload db j).creditStatus = "credited" := by
  rw [returned_eq_credited]
  simp only [creditConditions, withCredit, if_true, List.mem_singleton, forall_eq]
  cases j.1.providerInvoiceId with
  | none =>
      rw [among_null]
      split_ifs <;> simp
  | some x =>
      rw [among_value eventInvoiceIds_isSome]
      simp

/-- The null case: a draft without an invoice is selected only when no event names one. -/
theorem not_observed_holds :
    (∀ c ∈ creditConditions db (withCredit query (some "not_observed")), holds (c j) = true) ↔
      (invoicePayload db j).creditStatus = "not_observed" ∧
        (eventInvoiceIds db = [] ∨ j.1.providerInvoiceId ≠ none) := by
  rw [returned_eq_not_observed]
  simp only [creditConditions, withCredit, Option.some.injEq, String.reduceEq, if_false, if_true,
    List.mem_singleton, forall_eq]
  cases j.1.providerInvoiceId with
  | none =>
      rw [among_null]
      split_ifs with hnone <;> simp [neg, hnone]
  | some x =>
      rw [among_value eventInvoiceIds_isSome]
      simp [neg]

/-! ### Filter and list -/

theorem statement_withCredit :
    (invoicesSelect db (withCredit query (some status))).statement =
      (invoicesSelect db (withCredit query none)).statement.filter fun j =>
        ∀ c ∈ creditConditions db (withCredit query (some status)), holds (c j) = true := by
  simp only [ReviewSelect.statement, invoicesSelect, selectWhere, List.filter_filter]
  refine List.filter_congr fun j _ => ?_
  rw [Bool.eq_iff_iff]
  simp only [holds_conjunction, List.all_map, List.all_eq_true, Function.comp_apply,
    List.mem_cons, forall_eq_or_imp, invoiceFilters_withCredit, Bool.and_eq_true,
    decide_eq_true_eq]
  tauto

/-- The filter and the returned status agree on all drafts that are listed without it. -/
theorem creditAgrees_iff : CreditAgrees db query status ↔
    ∀ j ∈ (invoicesSelect db (withCredit query none)).statement,
      (∀ c ∈ creditConditions db (withCredit query (some status)), holds (c j) = true) ↔
        (invoicePayload db j).creditStatus = status := by
  constructor
  · intro h j hj
    have hmem : ∀ j, j ∈ (invoicesSelect db (withCredit query (some status))).statement ↔
        j ∈ (invoicesSelect db (withCredit query none)).statement.filter fun j =>
          (invoicePayload db j).creditStatus = status := fun j => by rw [h.selected]
    simpa [statement_withCredit, hj] using hmem j
  · intro h
    have hselected : (invoicesSelect db (withCredit query (some status))).statement =
        (invoicesSelect db (withCredit query none)).statement.filter fun j =>
          (invoicePayload db j).creditStatus = status := by
      rw [statement_withCredit]
      refine List.filter_congr fun j hj => ?_
      rw [Bool.eq_iff_iff, decide_eq_true_eq, decide_eq_true_eq]
      exact h j hj
    exact ⟨hselected, congrArg List.length hselected⟩

theorem credited_agrees (db : Database Row) (query : ReviewQuery) :
    CreditAgrees db query "credited" := creditAgrees_iff.mpr fun _ _ => credited_holds

theorem eventInvoiceIds_eq_nil : eventInvoiceIds db = [] ↔
    ∀ event ∈ db .webhookEvents, WebhookEventRow.invoiceId event = none := by
  constructor
  · intro h event hevent
    cases hid : WebhookEventRow.invoiceId event with
    | none => rfl
    | some x =>
        have hmem := mem_eventInvoiceIds.mpr ⟨event, hevent, hid⟩
        simp [h] at hmem
  · intro h
    rw [List.eq_nil_iff_forall_not_mem]
    intro v hv
    obtain ⟨x, rfl⟩ := Option.isSome_iff_exists.mp (eventInvoiceIds_isSome v hv)
    obtain ⟨event, hevent, hid⟩ := mem_eventInvoiceIds.mp hv
    simp [h event hevent] at hid

/-- Filter and returned status agree for both values exactly when no event names an invoice,
or every draft that the other filters list has an invoice. -/
theorem creditFilters_agree_iff (db : Database Row) (query : ReviewQuery) :
    (∀ status ∈ ["credited", "not_observed"], CreditAgrees db query status) ↔
      (∀ event ∈ db .webhookEvents, WebhookEventRow.invoiceId event = none) ∨
        ∀ draft ∈ db .invoiceDrafts, ∀ batch ∈ db .invoiceBatches, Listed db query draft batch →
          InvoiceDraftRow.providerInvoiceId draft ≠ none := by
  rw [← eventInvoiceIds_eq_nil]
  constructor
  · intro h
    by_cases hnil : eventInvoiceIds db = []
    · exact .inl hnil
    · refine .inr fun draft hd batch hb hlisted hnull => ?_
      have hagrees := creditAgrees_iff.mp (h "not_observed" (by simp)) (draft, batch)
        ((listed_iff hd hb).mpr hlisted)
      have hreturned : (invoicePayload db (draft, batch)).creditStatus = "not_observed" :=
        returned_eq_not_observed.mpr (by simp [hnull])
      exact (not_observed_holds.mp (hagrees.mpr hreturned)).2.elim hnil fun hid => hid hnull
  · intro h status hstatus
    rcases List.mem_pair.mp hstatus with rfl | rfl
    · exact credited_agrees db query
    · refine creditAgrees_iff.mpr fun j hj => not_observed_holds.trans ?_
      have hid : eventInvoiceIds db = [] ∨ j.1.providerInvoiceId ≠ none := by
        refine h.imp_right fun hdrafts => ?_
        obtain ⟨hd, hb, -⟩ := mem_innerJoin.mp (mem_statement.mp hj).1
        exact hdrafts j.1 hd j.2 hb ((listed_iff hd hb).mp hj)
      exact and_iff_left hid

end

/-! ### A pending draft beside a credited invoice -/

def shownRun : TrialRunRow where
  id := "run"
  status := .active
  startedAt := 0
  endsAt := 1
  createdAt := 0
  completedAt := none
  activeMarker := some 1

def shownBatch : InvoiceBatchRow where
  id := "batch"
  runId := "run"
  slotIndex := 0
  scheduledAt := 0
  targetCount := 8
  status := .scheduled
  leaseUntil := none
  attempts := 0
  createdAt := 0
  completedAt := none

/-- A draft that has no invoice yet. -/
def pendingDraft : InvoiceDraftRow where
  id := "draft"
  batchId := "batch"
  ordinal := 0
  payerName := "payer"
  payerTaxId := "tax"
  amount := 100
  tag := "tag"
  status := .pending
  providerInvoiceId := none
  attempts := 0
  reconcileAttempts := 0
  lastErrorCode := none
  createdAt := 0
  updatedAt := 0
  nextAttemptAt := 0

/-- An event that names some other invoice. -/
def otherCredit : WebhookEventRow where
  id := "event"
  subscription := "invoice"
  logType := "credited"
  invoiceId := some "other"
  transferId := none
  workspaceId := "w"
  payloadHash := "hash"
  outcome := .invoiceUnknown
  receivedAt := 0

def pendingDatabase : Database Row
  | .trialRuns => [shownRun]
  | .invoiceBatches => [shownBatch]
  | .invoiceDrafts => [pendingDraft]
  | .webhookEvents => [otherCredit]
  | _ => []

/-- The pending draft is returned as not observed, and the filter does not find it. -/
theorem pending_not_found : Constrained pendingDatabase ∧
    (invoicesSelect pendingDatabase (withCredit {} none)).statement.map
      (fun j => (invoicePayload pendingDatabase j).creditStatus) = ["not_observed"] ∧
    ¬ CreditAgrees pendingDatabase {} "not_observed" :=
  ⟨by decide, by decide, fun h => absurd h.total (by decide)⟩

end StarkbankTrial.CreditFilters
