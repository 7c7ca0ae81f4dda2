import StarkbankTrial.InvoiceChanges

/-!
# What transactions do to batches and trials

The whole effect of `settle` and of a claim on the two tables that they write. Later
results about batches use these and never unfold a transaction again.
-/
namespace StarkbankTrial.BatchChanges
open Domain InteractivePrograms RelationalTables Transaction DatabaseSchema
open DatabaseSchema.Table
open InvoiceRecording BatchClaims StoreOperations InvoiceChanges
open Program hiding atomically

/-! ### The rows that are written -/

def settledAt (status : BatchStatus) (now : ℤ) (b : InvoiceBatchRow) : InvoiceBatchRow :=
  { b with
    status := status
    leaseUntil := none
    completedAt := if status = .completed then some now else none }

def leased (claim : BatchClaim) (row b : InvoiceBatchRow) : InvoiceBatchRow :=
  { b with
    status := .issuing
    leaseUntil := some claim.leaseUntil
    attempts := row.attempts + 1 }

def degradedAt (claim : BatchClaim) (b : InvoiceBatchRow) : InvoiceBatchRow :=
  { b with status := .degraded, leaseUntil := none, completedAt := some claim.now }

def degradedRun (r : TrialRunRow) : TrialRunRow :=
  { r with status := .degraded, activeMarker := none }

def completedRun (now : ℤ) (r : TrialRunRow) : TrialRunRow :=
  { r with status := .completed, activeMarker := none, completedAt := some now }

/-- The drafts of one batch. -/
def draftsOf (batchId : BatchId) (db : Database Row) : List InvoiceDraftRow :=
  (db invoiceDrafts).filter fun d : InvoiceDraftRow => d.batchId == batchId

/-- The runs after a batch of one of them was settled. -/
def settledRuns (runId : TrialRunId) (status : BatchStatus) (now : ℤ)
    (batches : List InvoiceBatchRow) (runs : List TrialRunRow) : List TrialRunRow :=
  if status = .degraded then
    assignWhere (fun r : TrialRunRow => r.id == runId) degradedRun runs
  else if ∀ b ∈ batches, b.runId = runId → b.status = .completed then
    assignWhere (fun r : TrialRunRow => r.id == runId) (completedRun now) runs
  else runs

/-- The database after a settle. -/
def settled (b : InvoiceBatchRow) (now : ℤ) (db : Database Row) : Database Row :=
  let status := settledStatus b (draftsOf b.id db)
  let batches := assignWhere (fun b' : InvoiceBatchRow => b'.id == b.id) (settledAt status now)
    (db invoiceBatches)
  (db.set invoiceBatches batches).set trialRuns
    (settledRuns b.runId status now batches (db trialRuns))

/-! ### Transactions that cannot fail -/

variable {db : Database Row}

/-- An assignment that keeps what identifies a batch. -/
theorem batches_valid (hc : metadata.Consistent db) {condition : InvoiceBatchRow → Bool}
    {assign : InvoiceBatchRow → InvoiceBatchRow}
    (hkeeps : ∀ b, (assign b).id = b.id ∧ (assign b).runId = b.runId ∧
      (assign b).slotIndex = b.slotIndex ∧ (assign b).targetCount = b.targetCount) :
    metadata.Valid invoiceBatches (assignWhere condition assign (db invoiceBatches)) := by
  refine (hc invoiceBatches).assignWhere (fun b hb _ => ?_) (fun a _ b _ _ hab _ => ?_)
    fun a _ b _ _ _ hab => ?_
  · have hcheck := (hc invoiceBatches).1 b hb
    simpa [metadata, rowCheck, (hkeeps b).2.2.1, (hkeeps b).2.2.2] using hcheck
  · simpa [metadata, uniqueConflict, (hkeeps a).1, (hkeeps a).2.1, (hkeeps a).2.2.1] using hab
  · simpa [metadata, uniqueConflict, (hkeeps a).1, (hkeeps a).2.1, (hkeeps a).2.2.1,
      (hkeeps b).1, (hkeeps b).2.1, (hkeeps b).2.2.1] using hab

/-- An assignment that ends the activity of runs. -/
theorem runs_valid {runs : List TrialRunRow} (h : metadata.Valid trialRuns runs)
    {condition : TrialRunRow → Bool} {assign : TrialRunRow → TrialRunRow}
    (hkeeps : ∀ r, (assign r).id = r.id ∧ (assign r).activeMarker = none) :
    metadata.Valid trialRuns (assignWhere condition assign runs) := by
  have hnone : ∀ r m, sameNonNull (assign r).activeMarker m = false := by
    intro r m
    rw [(hkeeps r).2]
    rfl
  refine h.assignWhere (fun r _ _ => ?_) (fun a _ b _ _ hab _ => ?_) fun a _ b _ _ _ hab => ?_
  · simp [metadata, rowCheck, (hkeeps r).2]
  · simp only [metadata, uniqueConflict, Bool.or_eq_false_iff] at hab ⊢
    exact ⟨(hkeeps a).1 ▸ hab.1, hnone a _⟩
  · simp only [metadata, uniqueConflict, Bool.or_eq_false_iff] at hab ⊢
    exact ⟨(hkeeps a).1 ▸ (hkeeps b).1 ▸ hab.1, hnone a _⟩

theorem set_batches_runs {rows : List InvoiceBatchRow} :
    (db.set invoiceBatches rows) trialRuns = db trialRuns := Database.set_of_ne _ (by decide) _

theorem settleRun_run (hruns : metadata.Valid trialRuns (db trialRuns)) (runId : TrialRunId)
    (status : BatchStatus) (now : ℤ) :
    (settleRun runId status now).run (respond metadata) db =
      (.ok (), db.set trialRuns
        (settledRuns runId status now (db invoiceBatches) (db trialRuns))) := by
  have hdegraded : metadata.Valid trialRuns
      (assignWhere (fun r : TrialRunRow => r.id == runId) degradedRun (db trialRuns)) :=
    runs_valid hruns fun r => ⟨rfl, rfl⟩
  have hcompleted : metadata.Valid trialRuns
      (assignWhere (fun r : TrialRunRow => r.id == runId) (completedRun now) (db trialRuns)) :=
    runs_valid hruns fun r => ⟨rfl, rfl⟩
  unfold settleRun settledRuns
  split_ifs with hstatus hall
  · exact run_updateRows hdegraded
  · simp only [select_bind, run_call, respond_select]
    have hnone : (db invoiceBatches).filter (fun b : InvoiceBatchRow =>
        b.runId == runId && b.status != .completed) = [] := by
      refine List.filter_eq_nil_iff.mpr fun b hb hmatch => ?_
      simp only [Bool.and_eq_true, beq_iff_eq, bne_iff_ne] at hmatch
      exact hmatch.2 (hall b hb hmatch.1)
    simp only [hnone, List.length_nil, if_true]
    exact run_updateRows hcompleted
  · simp only [select_bind, run_call, respond_select]
    push Not at hall
    obtain ⟨b, hb, hrun, hopen⟩ := hall
    have hmem : b ∈ (db invoiceBatches).filter (fun b : InvoiceBatchRow =>
        b.runId == runId && b.status != .completed) :=
      List.mem_filter.mpr ⟨hb, by simp [hrun, hopen]⟩
    have hsome := (List.length_pos_of_mem hmem).ne'
    simp only [hsome, if_false]
    simp

/-- A settle of a stored batch. -/
theorem settle_apply (hc : metadata.Consistent db) {b : InvoiceBatchRow}
    (hb : b ∈ db invoiceBatches) (now : ℤ) :
    (StoreOp.invoices (.settle b.id now)).apply db =
      (.ok (settledStatus b (draftsOf b.id db)), settled b now db) := by
  refine atomically_of_run ?_
  have hone : (db invoiceBatches).filter (fun b' : InvoiceBatchRow => b'.id == b.id) = [b] := by
    refine (hc invoiceBatches).filter_eq_singleton (fun a a' ha ha' => ?_) hb
      (beq_iff_eq.mpr rfl)
    exact metadata.clash_of_key _ a a' ((beq_iff_eq.mp ha).trans (beq_iff_eq.mp ha').symm)
  have hfirst : respond metadata (.select invoiceBatches
      fun b' : InvoiceBatchRow => b'.id == b.id) db = ([b], db) := by rw [respond_select, hone]
  have hrun : (settle b.id now).run (respond metadata) db =
      (updateRows invoiceBatches (fun b' : InvoiceBatchRow => b'.id == b.id)
        (settledAt (settledStatus b (draftsOf b.id db)) now) >>= fun _ => do
          settleRun b.runId (settledStatus b (draftsOf b.id db)) now
          pure (settledStatus b (draftsOf b.id db))).run (respond metadata) db := by
    unfold settle
    simp only [select_bind, run_call, hfirst, one, Program.done_bind]
    rfl
  have hvalid : metadata.Valid invoiceBatches (assignWhere
      (fun b' : InvoiceBatchRow => b'.id == b.id)
      (settledAt (settledStatus b (draftsOf b.id db)) now) (db invoiceBatches)) :=
    batches_valid hc fun b => ⟨rfl, rfl, rfl, rfl⟩
  refine Eq.trans hrun ?_
  rw [run_updateRows hvalid, run_bind, settleRun_run (by rw [set_batches_runs]; exact hc trialRuns)]
  simp only [set_batches_runs, Database.set_self]
  rfl

/-- A settle of a batch that is not stored. -/
theorem settle_absent {batchId : BatchId} (h : ∀ b ∈ db invoiceBatches, b.id ≠ batchId) (now : ℤ) :
    (StoreOp.invoices (.settle batchId now)).apply db = (.error .noResultFound, db) := by
  have hnone : (db invoiceBatches).filter (fun b : InvoiceBatchRow => b.id == batchId) = [] :=
    List.filter_eq_nil_iff.mpr fun b hb hid => h b hb (beq_iff_eq.mp hid)
  change atomically metadata (settle batchId now) db = _
  unfold settle
  simp [atomically, Program.atomically, hnone, one]

/-! ### Claims -/

/-- The batch as a claim returns it. -/
def claimedBatch (claim : BatchClaim) (row : InvoiceBatchRow) : InvoiceBatch where
  id := row.id
  runId := row.runId
  slotIndex := row.slotIndex
  scheduledAt := row.scheduledAt
  targetCount := row.targetCount
  status := .issuing
  leaseUntil := claim.leaseUntil
  attempts := row.attempts + 1

/-- The runs after the exhausted batches were degraded: with any, all runs with a degraded
batch are degraded. -/
def degradedRuns (claim : BatchClaim) (batches : List InvoiceBatchRow) (runs : List TrialRunRow) :
    List TrialRunRow :=
  if batches.any (exhausted claim) then
    assignWhere (fun r : TrialRunRow => (assignWhere (exhausted claim) (degradedAt claim)
      batches).any fun b => b.status == .degraded && b.runId == r.id) degradedRun runs
  else runs

/-- The database after a claim that found no batch. -/
def degraded (claim : BatchClaim) (db : Database Row) : Database Row :=
  (db.set invoiceBatches (assignWhere (exhausted claim) (degradedAt claim)
    (db invoiceBatches))).set trialRuns
      (degradedRuns claim (db invoiceBatches) (db trialRuns))

/-- The loop over the runs. -/
theorem degradeRuns_run (runIds : List TrialRunId) (hruns : metadata.Valid trialRuns (db trialRuns)) :
    (Program.forEach (fun runId => do
      let _ ← updateRows trialRuns (fun r : TrialRunRow => r.id == runId) degradedRun) runIds :
        Txn Unit).run (respond metadata) db =
      (.ok (), db.set trialRuns (assignWhere (fun r : TrialRunRow => runIds.contains r.id)
        degradedRun (db trialRuns))) := by
  induction runIds generalizing db with
  | nil =>
      rw [assignWhere_none (by simp), Database.set_eq_self]
      rfl
  | cons runId runIds ih =>
      have hvalid : metadata.Valid trialRuns
          (assignWhere (fun r : TrialRunRow => r.id == runId) degradedRun (db trialRuns)) :=
        runs_valid hruns fun r => ⟨rfl, rfl⟩
      have hfirst : (updateRows trialRuns (fun r : TrialRunRow => r.id == runId) degradedRun >>=
          fun _ => (pure () : Txn Unit)).run (respond metadata) db =
            (.ok (), db.set trialRuns (assignWhere (fun r : TrialRunRow => r.id == runId)
              degradedRun (db trialRuns))) := run_updateRows hvalid
      unfold Program.forEach
      rw [run_bind, hfirst]
      simp only
      rw [ih (by rw [Database.set_self]; exact hvalid), Database.set_self, Database.set_set]
      congr 2
      unfold assignWhere
      rw [List.map_map]
      refine List.map_congr_left fun r _ => ?_
      by_cases hid : r.id = runId
      · simp [hid, degradedRun]
      · simp [hid]

theorem degradeExhaustedBatches_run (hc : metadata.Consistent db) (claim : BatchClaim) :
    (degradeExhaustedBatches claim).run (respond metadata) db = (.ok (), degraded claim db) := by
  have hvalid : metadata.Valid invoiceBatches
      (assignWhere (exhausted claim) (degradedAt claim) (db invoiceBatches)) :=
    batches_valid hc fun b => ⟨rfl, rfl, rfl, rfl⟩
  have hrun : (degradeExhaustedBatches claim).run (respond metadata) db = _ :=
    run_updateRows hvalid
  refine hrun.trans ?_
  unfold degraded degradedRuns
  by_cases hany : ((db invoiceBatches).filter (exhausted claim)).length = 0
  · have hnone : (db invoiceBatches).any (exhausted claim) = false := by
      rw [List.length_eq_zero_iff, List.filter_eq_nil_iff] at hany
      exact List.any_eq_false.mpr hany
    have hsame : (db.set invoiceBatches (assignWhere (exhausted claim) (degradedAt claim)
        (db invoiceBatches))).set trialRuns (db trialRuns) = db.set invoiceBatches
          (assignWhere (exhausted claim) (degradedAt claim) (db invoiceBatches)) := by
      have hruns := Database.set_eq_self (db.set invoiceBatches
        (assignWhere (exhausted claim) (degradedAt claim) (db invoiceBatches))) trialRuns
      rwa [set_batches_runs] at hruns
    rw [if_pos hany, hnone, if_neg (by simp), hsame]
    rfl
  · have hsome : (db invoiceBatches).any (exhausted claim) = true := by
      obtain ⟨b, hb⟩ := List.length_pos_iff_exists_mem.mp (Nat.pos_of_ne_zero hany)
      exact List.any_eq_true.mpr ⟨b, List.mem_filter.mp hb⟩
    rw [if_neg hany, hsome, if_pos rfl]
    simp only [select_bind, run_call, respond_select]
    refine (degradeRuns_run _ (by rw [set_batches_runs]; exact hc trialRuns)).trans ?_
    rw [set_batches_runs, Database.set_self]
    congr 3
    funext r
    rw [Bool.eq_iff_iff]
    simp only [List.contains_iff_mem, List.mem_eraseDups, List.mem_map, List.mem_filter,
      List.any_eq_true, Bool.and_eq_true, beq_iff_eq, and_assoc]
    rfl

theorem claimDueBatch_apply (hc : metadata.Consistent db) (claim : BatchClaim) :
    (StoreOp.trials (.claimDueBatch claim)).apply db = (.ok none, degraded claim db) ∨
    ∃ row ∈ db invoiceBatches, due claim row = true ∧
      (StoreOp.trials (.claimDueBatch claim)).apply db = (.ok (some (claimedBatch claim row)),
        db.set invoiceBatches (assignWhere (fun b : InvoiceBatchRow => b.id == row.id)
          (leased claim row) (db invoiceBatches))) := by
  cases hfirst : firstBy (fun a b : InvoiceBatchRow => a.scheduledAt ≤ b.scheduledAt)
      ((db invoiceBatches).filter (due claim)) with
  | none =>
      refine .inl (atomically_of_run ?_)
      change (claimDueBatch claim).run (respond metadata) db = _
      unfold claimDueBatch
      simp only [lockFirst_bind, run_call, respond_lockFirst, hfirst]
      rw [run_bind, degradeExhaustedBatches_run hc claim]
      rfl
  | some row =>
      have hmem := List.mem_filter.mp (firstBy_mem hfirst)
      refine .inr ⟨row, hmem.1, hmem.2, atomically_of_run ?_⟩
      have hvalid : metadata.Valid invoiceBatches (assignWhere
          (fun b : InvoiceBatchRow => b.id == row.id) (leased claim row) (db invoiceBatches)) :=
        batches_valid hc fun b => ⟨rfl, rfl, rfl, rfl⟩
      change (claimDueBatch claim).run (respond metadata) db = _
      unfold claimDueBatch
      simp only [lockFirst_bind, run_call, respond_lockFirst, hfirst]
      exact run_updateRows hvalid

end StarkbankTrial.BatchChanges
