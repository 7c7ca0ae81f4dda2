import StarkbankTrial.InvoiceAttempts
import StarkbankTrial.WaitingDrafts

/-!
# The work that is left

Two numbers tell how far a trial is: the batches that a tick may still claim, and the lookups
that reconcile passes still owe to drafts with an unknown result. A tick closes a batch once
no lookup is owed, and a lookup that is written makes the second number smaller.
-/
namespace StarkbankTrial.OpenWork
open Domain InteractivePrograms RelationalTables Transaction DatabaseSchema
open DatabaseSchema.Table
open InvoiceRecording BatchClaims StoreOperations InvoiceChanges BatchChanges ExternalCalls
open Services TrialInvariants UndisturbedServices
open Program hiding atomically

/-- The batch may still be claimed. -/
def unfinished (b : InvoiceBatchRow) : Bool :=
  b.status == .scheduled || b.status == .issuing || b.status == .reconciling

def openBatches (db : Database Row) : ℕ :=
  total (fun b : InvoiceBatchRow => (unfinished b).toNat) (db invoiceBatches)

section
variable (cfg : TrialSettings)

/-- With so many lookups in vain the result of the draft is not unknown any more. -/
def lookupsLeft (d : InvoiceDraftRow) : ℕ :=
  if d.status = .unknown then cfg.invoiceReconciliationMaxAttempts - d.reconcileAttempts + 1 else 0

def lookupsOwed (db : Database Row) : ℕ := total (lookupsLeft cfg) (db invoiceDrafts)

/-- The draft has its invoice, or it may still get one. -/
def Hopeful (d : InvoiceDraftRow) : Prop :=
  d.status ≠ .failed ∧ (d.status = .unknown → d.attempts < cfg.invoiceMaxAttempts)

/-- The batch is completed, or it can be, with so many claims to spare. -/
def OnCourse (db : Database Row) (spare : ℕ) (b : InvoiceBatchRow) : Prop :=
  b.status = .completed ∨ unfinished b = true ∧ b.attempts + spare ≤ cfg.batchMaxAttempts ∧
    ∀ d ∈ db invoiceDrafts, d.batchId = b.id → Hopeful cfg d

def KeepsCourse (spare : ℕ) (db : Database Row) (spare' : ℕ) (db' : Database Row) : Prop :=
  ∀ b ∈ db invoiceBatches, OnCourse cfg db spare b →
    ∃ b' ∈ db' invoiceBatches, b'.id = b.id ∧ b'.runId = b.runId ∧ OnCourse cfg db' spare' b'

end

/-- Whatever waits in the tables has waited long enough. -/
structure Late (db : Database Row) (time : ℤ) : Prop where
  scheduled : ∀ b ∈ db invoiceBatches, b.scheduledAt ≤ time
  leases : ∀ b ∈ db invoiceBatches, ∀ lease, b.leaseUntil = some lease → lease ≤ time
  drafts : ∀ d ∈ db invoiceDrafts, d.nextAttemptAt ≤ time

section
variable {cfg : TrialSettings} {db db' : Database Row} {time : ℤ} {spare : ℕ}

/-! ### The order of the rows -/

theorem openBatches_reordered (hdb : Reordered db db') : openBatches db' = openBatches db :=
  (total_perm (hdb invoiceBatches)).symm

theorem lookupsOwed_reordered (hdb : Reordered db db') : lookupsOwed cfg db' = lookupsOwed cfg db :=
  (total_perm (hdb invoiceDrafts)).symm

theorem Late.reordered (h : Late db time) (hdb : Reordered db db') : Late db' time where
  scheduled b hb := h.scheduled b (hdb.mem.mp hb)
  leases b hb := h.leases b (hdb.mem.mp hb)
  drafts d hd := h.drafts d (hdb.mem.mp hd)

/-- There is such a time. -/
theorem exists_late (db : Database Row) : ∃ time, Late db time := by
  have hbound : ∀ times : List ℤ, ∃ time, ∀ t ∈ times, t ≤ time := by
    intro times
    induction times with
    | nil => exact ⟨0, by simp⟩
    | cons t times ih =>
        obtain ⟨time, htime⟩ := ih
        refine ⟨max t time, fun t' ht' => ?_⟩
        rcases List.mem_cons.mp ht' with rfl | ht'
        · exact Int.le_max_left _ _
        · exact (htime t' ht').trans (Int.le_max_right _ _)
  obtain ⟨t₁, h₁⟩ := hbound ((db invoiceBatches).map InvoiceBatchRow.scheduledAt)
  obtain ⟨t₂, h₂⟩ := hbound ((db invoiceBatches).filterMap InvoiceBatchRow.leaseUntil)
  obtain ⟨t₃, h₃⟩ := hbound ((db invoiceDrafts).map InvoiceDraftRow.nextAttemptAt)
  refine ⟨max t₁ (max t₂ t₃), fun b hb => ?_, fun b hb lease hlease => ?_, fun d hd => ?_⟩
  · have := h₁ _ (List.mem_map_of_mem hb)
    omega
  · have := h₂ lease (List.mem_filterMap.mpr ⟨b, hb, hlease⟩)
    omega
  · have := h₃ _ (List.mem_map_of_mem hd)
    omega

/-! ### Lookups -/

theorem lookupsLeft_pos {d : InvoiceDraftRow} (h : d.status = .unknown) : 0 < lookupsLeft cfg d := by
  simp [lookupsLeft, h]

theorem lookupsLeft_known {d : InvoiceDraftRow} (h : d.status ≠ .unknown) :
    lookupsLeft cfg d = 0 := by
  simp [lookupsLeft, h]

theorem lookupsOwed_eq_zero : lookupsOwed cfg db = 0 ↔
    ∀ d ∈ db invoiceDrafts, d.status ≠ .unknown := by
  unfold lookupsOwed
  rw [total_eq_zero]
  refine forall₂_congr fun d _ => ⟨fun hleft hstatus => ?_, lookupsLeft_known⟩
  have hpos : 0 < lookupsLeft cfg d := lookupsLeft_pos hstatus
  omega

theorem lookupsOwed_of_eq (hdrafts : db' invoiceDrafts = db invoiceDrafts) :
    lookupsOwed cfg db' = lookupsOwed cfg db := by
  unfold lookupsOwed
  rw [hdrafts]

/-- New drafts have no result yet. -/
theorem lookupsOwed_saved {new : List InvoiceDraftRow}
    (hdrafts : db' invoiceDrafts = db invoiceDrafts ++ new)
    (hnew : ∀ d ∈ new, d.status = .pending) : lookupsOwed cfg db' = lookupsOwed cfg db := by
  have hnone : total (lookupsLeft cfg) new = 0 :=
    total_eq_zero.mpr fun d hd => lookupsLeft_known (by simp [hnew d hd])
  unfold lookupsOwed
  rw [hdrafts, total_append, hnone, Nat.add_zero]

/-- A draft that is created owes nothing. -/
theorem lookupsOwed_created {id : DraftId} {assign : InvoiceDraftRow → InvoiceDraftRow}
    (hassign : ∀ d, (assign d).status = .created)
    (hdrafts : db' invoiceDrafts = assignWhere (fun d : InvoiceDraftRow => d.id == id) assign
      (db invoiceDrafts)) :
    lookupsOwed cfg db' ≤ lookupsOwed cfg db ∧
      ∀ d ∈ db invoiceDrafts, d.id = id → d.status = .unknown →
        lookupsOwed cfg db' < lookupsOwed cfg db := by
  have hzero : ∀ d, lookupsLeft cfg (assign d) = 0 :=
    fun d => lookupsLeft_known (by simp [hassign d])
  unfold lookupsOwed
  rw [hdrafts]
  refine ⟨total_assignWhere_le fun d _ _ => hzero d ▸ Nat.zero_le _, fun d hd hid hstatus => ?_⟩
  refine total_assignWhere_lt (fun d _ _ => hzero d ▸ Nat.zero_le _) hd (by simp [hid]) ?_
  rw [hzero]
  exact lookupsLeft_pos hstatus

/-- A lookup in vain is one lookup less. -/
theorem lookupsOwed_missed (hc : metadata.Consistent db) {stored : InvoiceDraftRow}
    (hstored : stored ∈ db invoiceDrafts) (hstatus : stored.status = .unknown)
    {draft : InvoiceDraft} {limits : ReconcileLimits}
    (hlimit : limits.maxReconciliationAttempts = cfg.invoiceReconciliationMaxAttempts)
    (hdrafts : db' invoiceDrafts = assignWhere (fun d : InvoiceDraftRow => d.id == stored.id)
      (missDraft limits draft time stored) (db invoiceDrafts)) :
    lookupsOwed cfg db' < lookupsOwed cfg db := by
  have hless : lookupsLeft cfg (missDraft limits draft time stored stored) <
      lookupsLeft cfg stored := by
    by_cases hlast : cfg.invoiceReconciliationMaxAttempts ≤ stored.reconcileAttempts + 1
    · have hknown : (missDraft limits draft time stored stored).status ≠ .unknown := by
        simp only [missDraft, hlimit, hlast, if_true]
        split_ifs <;> simp
      rw [lookupsLeft_known hknown]
      exact lookupsLeft_pos hstatus
    · simp [lookupsLeft, missDraft, hlimit, hlast, hstatus]
      omega
  unfold lookupsOwed
  rw [hdrafts]
  refine total_assignWhere_lt (fun d hd hid => ?_) hstored (by simp) hless
  obtain rfl := (hc invoiceDrafts).eq_of_key hd hstored (beq_iff_eq.mp hid)
  exact hless.le

/-! ### Open batches -/

theorem openBatches_of_eq (hbatches : db' invoiceBatches = db invoiceBatches) :
    openBatches db' = openBatches db := by
  unfold openBatches
  rw [hbatches]

theorem openBatches_eq_zero : openBatches db = 0 ↔
    ∀ b ∈ db invoiceBatches, unfinished b = false := by
  unfold openBatches
  rw [total_eq_zero]
  exact forall₂_congr fun b _ => by cases unfinished b <;> simp

theorem due_unfinished {claim : BatchClaim} {b : InvoiceBatchRow} (h : due claim b = true) :
    unfinished b = true := by
  simp only [due, claimable, Bool.and_eq_true] at h
  exact h.1.1.2

/-- When it is late, an open batch may be claimed unless its claims are used up. -/
theorem Late.due_or_exhausted {claim : BatchClaim} (h : Late db claim.now) {b : InvoiceBatchRow}
    (hb : b ∈ db invoiceBatches) (hopen : unfinished b = true) :
    due claim b = true ∨ exhausted claim b = true := by
  have hlease : (b.leaseUntil.all fun lease => decide (lease ≤ claim.now)) = true := by
    cases hlease : b.leaseUntil with
    | none => rfl
    | some lease => simpa using h.leases b hb lease hlease
  have hclaimable : claimable claim b = true := by
    simp only [claimable, Bool.and_eq_true, decide_eq_true_eq]
    exact ⟨⟨h.scheduled b hb, hopen⟩, hlease⟩
  by_cases hleft : b.attempts < claim.maxAttempts
  · exact .inl (by simp [due, hclaimable, hleft])
  · exact .inr (by simp [exhausted, hclaimable, not_lt.mp hleft])

/-- A claim that returns no batch found none that is due. -/
theorem claim_none {claim : BatchClaim}
    (h : ((StoreOp.trials (.claimDueBatch claim)).apply db).1 = .ok none)
    (hc : metadata.Consistent db) : ∀ b ∈ db invoiceBatches, due claim b = false := by
  cases hfirst : firstBy (fun a b : InvoiceBatchRow => a.scheduledAt ≤ b.scheduledAt)
      ((db invoiceBatches).filter (due claim)) with
  | none =>
      intro b hb
      have hnone := List.filter_eq_nil_iff.mp (firstBy_eq_none.mp hfirst) b hb
      simpa using hnone
  | some row =>
      -- the row would have been returned
      have hvalid : metadata.Valid invoiceBatches (assignWhere
          (fun b : InvoiceBatchRow => b.id == row.id) (leased claim row) (db invoiceBatches)) :=
        batches_valid hc fun b => ⟨rfl, rfl, rfl, rfl⟩
      have hsome : (claimDueBatch claim).run (respond metadata) db = (.ok (some
          (claimedBatch claim row)), db.set invoiceBatches (assignWhere
            (fun b : InvoiceBatchRow => b.id == row.id) (leased claim row)
            (db invoiceBatches))) := by
        unfold claimDueBatch
        simp only [lockFirst_bind, run_call, respond_lockFirst, hfirst]
        exact run_updateRows hvalid
      have hok : (StoreOp.trials (.claimDueBatch claim)).apply db = _ := atomically_of_run hsome
      rw [hok] at h
      simp at h

/-- A late claim that returns no batch leaves none open. -/
theorem claim_none_open {claim : BatchClaim} (hc : metadata.Consistent db)
    (hlate : Late db claim.now)
    (h : ((StoreOp.trials (.claimDueBatch claim)).apply db).1 = .ok none) :
    openBatches ((StoreOp.trials (.claimDueBatch claim)).apply db).2 = 0 := by
  have hnone := claim_none h hc
  rcases claimDueBatch_apply hc claim with hdegraded | ⟨row, hrow, hdue, -⟩
  · rw [hdegraded, openBatches_eq_zero]
    intro b hb
    have hb : b ∈ assignWhere (exhausted claim) (degradedAt claim) (db invoiceBatches) := hb
    rcases mem_assignWhere.mp hb with ⟨b₀, -, -, rfl⟩ | ⟨hb, hleft⟩
    · rfl
    · by_contra hopen
      rcases hlate.due_or_exhausted hb (by simpa using hopen) with hdue | hexhausted
      · rw [hnone b hb] at hdue
        exact Bool.noConfusion hdue
      · rw [hleft] at hexhausted
        exact Bool.noConfusion hexhausted
  · rw [hnone row hrow] at hdue
    exact Bool.noConfusion hdue

/-- A claim opens no batch. -/
theorem claim_open (hc : metadata.Consistent db) (claim : BatchClaim) :
    openBatches ((StoreOp.trials (.claimDueBatch claim)).apply db).2 ≤ openBatches db := by
  rcases claimDueBatch_apply hc claim with hnone | ⟨row, hrow, hdue, hsome⟩
  · rw [hnone]
    exact total_assignWhere_le fun b _ _ => Nat.zero_le _
  · rw [hsome]
    refine total_assignWhere_le fun b hb hid => ?_
    obtain rfl := (hc invoiceBatches).eq_of_key hb hrow (beq_iff_eq.mp hid)
    rw [due_unfinished hdue]
    exact Bool.toNat_le _

/-- Drafts that are all done settle their batch. -/
theorem settledStatus_done {b : InvoiceBatchRow} {drafts : List InvoiceDraftRow}
    (hlength : (drafts.length : ℤ) = b.targetCount)
    (hdone : ∀ d ∈ drafts, d.status = .created ∨ d.status = .failed) :
    settledStatus b drafts = .completed ∨ settledStatus b drafts = .degraded := by
  by_cases hfailed : 0 < countStatus drafts .failed
  · unfold settledStatus
    split_ifs
    · exact .inl rfl
    · exact .inr rfl
  · -- without a failed draft all are created
    have hall : drafts.filter (fun d => d.status == .created) = drafts := by
      refine List.filter_eq_self.mpr fun d hd => ?_
      rcases hdone d hd with hstatus | hstatus
      · simp [hstatus]
      · exact absurd (List.length_pos_of_mem (List.mem_filter.mpr ⟨hd, by simp [hstatus]⟩)) hfailed
    exact .inl (by simp [settledStatus, countStatus, hall, hlength])

/-- A batch whose drafts are all done is closed by its settle. -/
theorem settle_closes {gen : Generators} (h : Fitting gen db) {b : InvoiceBatchRow}
    (hb : b ∈ db invoiceBatches) (hopen : unfinished b = true)
    (hsome : ∃ d ∈ db invoiceDrafts, d.batchId = b.id)
    (hdone : ∀ d ∈ db invoiceDrafts, d.batchId = b.id → d.status = .created ∨ d.status = .failed)
    (now : ℤ) :
    openBatches ((StoreOp.invoices (.settle b.id now)).apply db).2 < openBatches db := by
  have hstatus := settledStatus_done (draftsOf_length h hb hsome) fun d hd =>
    hdone d (List.mem_filter.mp hd).1 (beq_iff_eq.mp (List.mem_filter.mp hd).2)
  have hclosed : ∀ b', unfinished (settledAt (settledStatus b (draftsOf b.id db)) now b') = false := by
    intro b'
    rcases hstatus with hstatus | hstatus <;> simp [settledAt, unfinished, hstatus]
  rw [settle_apply h.consistent hb now]
  refine total_assignWhere_lt (fun b' _ _ => ?_) hb (by simp) ?_
  · simp [hclosed]
  · simp [hclosed, hopen]

/-! ### Batches on course -/

theorem KeepsCourse.of_drafts (hbatches : db' invoiceBatches = db invoiceBatches)
    (hback : ∀ d' ∈ db' invoiceDrafts, Hopeful cfg d' ∨
      ∃ d ∈ db invoiceDrafts, d.batchId = d'.batchId ∧ (Hopeful cfg d → Hopeful cfg d')) :
    KeepsCourse cfg spare db spare db' := by
  intro b hb hcourse
  refine ⟨b, hbatches ▸ hb, rfl, rfl, ?_⟩
  rcases hcourse with hcompleted | ⟨hopen, hspare, hdrafts⟩
  · exact .inl hcompleted
  · refine .inr ⟨hopen, hspare, fun d' hd' hbatch => ?_⟩
    rcases hback d' hd' with hnew | ⟨d, hd, hsame, himp⟩
    · exact hnew
    · exact himp (hdrafts d hd (hsame.trans hbatch))

theorem KeepsCourse.of_eq (hbatches : db' invoiceBatches = db invoiceBatches)
    (hdrafts : db' invoiceDrafts = db invoiceDrafts) : KeepsCourse cfg spare db spare db' :=
  .of_drafts hbatches fun d' hd' => .inr ⟨d', hdrafts ▸ hd', rfl, fun h => h⟩

theorem KeepsCourse.reordered (hdb : Reordered db db') : KeepsCourse cfg spare db spare db' := by
  intro b hb hcourse
  refine ⟨b, hdb.mem.mpr hb, rfl, rfl, hcourse.imp_right fun ⟨hopen, hspare, hdrafts⟩ => ?_⟩
  exact ⟨hopen, hspare, fun d hd => hdrafts d (hdb.mem.mp hd)⟩

theorem KeepsCourse.trans {spare' spare'' : ℕ} {db'' : Database Row}
    (h : KeepsCourse cfg spare db spare' db') (h' : KeepsCourse cfg spare' db' spare'' db'') :
    KeepsCourse cfg spare db spare'' db'' := by
  intro b hb hcourse
  obtain ⟨b', hb', hid, hrun, hcourse'⟩ := h b hb hcourse
  obtain ⟨b'', hb'', hid', hrun', hcourse''⟩ := h' b' hb' hcourse'
  exact ⟨b'', hb'', hid'.trans hid, hrun'.trans hrun, hcourse''⟩

/-- An assignment to the draft with one id. -/
theorem KeepsCourse.assigned {id : DraftId} {assign : InvoiceDraftRow → InvoiceDraftRow}
    (hbatches : db' invoiceBatches = db invoiceBatches)
    (hdrafts : db' invoiceDrafts = assignWhere (fun d : InvoiceDraftRow => d.id == id) assign
      (db invoiceDrafts))
    (hbatch : ∀ d, (assign d).batchId = d.batchId)
    (hassign : ∀ d ∈ db invoiceDrafts, d.id = id → Hopeful cfg d → Hopeful cfg (assign d)) :
    KeepsCourse cfg spare db spare db' := by
  refine .of_drafts hbatches fun d' hd' => ?_
  rw [hdrafts] at hd'
  rcases mem_assignWhere.mp hd' with ⟨d, hd, hid, rfl⟩ | ⟨hd, -⟩
  · exact .inr ⟨d, hd, (hbatch d).symm, hassign d hd (beq_iff_eq.mp hid)⟩
  · exact .inr ⟨d', hd, rfl, fun h => h⟩

/-- A claim takes one of the claims to spare. -/
theorem claim_course (hc : metadata.Consistent db) {claim : BatchClaim}
    (hmax : claim.maxAttempts = cfg.batchMaxAttempts) :
    KeepsCourse cfg (spare + 1) db spare ((StoreOp.trials (.claimDueBatch claim)).apply db).2 := by
  intro b hb hcourse
  rcases claimDueBatch_apply hc claim with hnone | ⟨row, hrow, hdue, hsome⟩
  · -- the claims of a batch on course are not used up
    have hleft : exhausted claim b = false := by
      rcases hcourse with hcompleted | ⟨-, hspare, -⟩
      · simp [exhausted, claimable, hcompleted]
      · simp only [exhausted, hmax, Bool.and_eq_false_iff, decide_eq_false_iff_not]
        exact .inr (by omega)
    rw [hnone]
    refine ⟨b, mem_assignWhere.mpr (.inr ⟨hb, hleft⟩), rfl, rfl, hcourse.imp_right ?_⟩
    rintro ⟨hopen, hspare, hdrafts⟩
    exact ⟨hopen, by omega, hdrafts⟩
  · rw [hsome]
    by_cases hid : b.id = row.id
    · obtain rfl := (hc invoiceBatches).eq_of_key hb hrow hid
      refine ⟨leased claim b b, mem_assignWhere.mpr (.inl ⟨b, hb, by simp, rfl⟩), rfl, rfl, ?_⟩
      rcases hcourse with hcompleted | ⟨-, hspare, hdrafts⟩
      · have hopen := due_unfinished hdue
        simp [unfinished, hcompleted] at hopen
      · refine .inr ⟨rfl, ?_, hdrafts⟩
        change b.attempts + 1 + spare ≤ cfg.batchMaxAttempts
        omega
    · refine ⟨b, mem_assignWhere.mpr (.inr ⟨hb, by simp [hid]⟩), rfl, rfl, hcourse.imp_right ?_⟩
      rintro ⟨hopen, hspare, hdrafts⟩
      exact ⟨hopen, by omega, hdrafts⟩

/-- A settle degrades no batch on course, and none that is completed is opened again. -/
theorem settle_course {gen : Generators} (h : Fitting gen db) (batchId : BatchId) (now : ℤ) :
    KeepsCourse cfg spare db spare ((StoreOp.invoices (.settle batchId now)).apply db).2 := by
  by_cases hstored : ∃ b ∈ db invoiceBatches, b.id = batchId
  · obtain ⟨b₀, hb₀, rfl⟩ := hstored
    have hstays := (settle_fitting h b₀.id now).2
    rw [settle_apply h.consistent hb₀ now] at hstays ⊢
    intro b hb hcourse
    by_cases hid : b.id = b₀.id
    · obtain rfl := (h.consistent invoiceBatches).eq_of_key hb hb₀ hid
      have hmem : settledAt (settledStatus b (draftsOf b.id db)) now b ∈
          settled b now db invoiceBatches := mem_assignWhere.mpr (.inl ⟨b, hb, by simp, rfl⟩)
      refine ⟨_, hmem, rfl, rfl, ?_⟩
      rcases hcourse with hcompleted | ⟨-, hspare, hdrafts⟩
      · obtain ⟨b', hb', hid', hstatus⟩ := hstays b hb hcompleted
        rcases mem_assignWhere.mp hb' with ⟨b₁, -, -, rfl⟩ | ⟨-, hne⟩
        · exact .inl hstatus
        · simp [hid'] at hne
      · have hfailed : ¬ 0 < countStatus (draftsOf b.id db) .failed := by
          intro hpos
          obtain ⟨d, hd⟩ := List.length_pos_iff_exists_mem.mp hpos
          obtain ⟨hd, hstatus⟩ := List.mem_filter.mp hd
          obtain ⟨hd, hbatch⟩ := List.mem_filter.mp hd
          exact (hdrafts d hd (beq_iff_eq.mp hbatch)).1 (beq_iff_eq.mp hstatus)
        by_cases hstatus : settledStatus b (draftsOf b.id db) = .completed
        · exact .inl hstatus
        · refine .inr ⟨?_, hspare, hdrafts⟩
          unfold settledStatus at hstatus ⊢
          rw [if_neg hfailed] at hstatus ⊢
          split_ifs at hstatus ⊢
          · exact absurd rfl hstatus
          · rfl
          · rfl
    · refine ⟨b, mem_assignWhere.mpr (.inr ⟨hb, by simp [hid]⟩), rfl, rfl, hcourse⟩
  · have hnone : ∀ b ∈ db invoiceBatches, b.id ≠ batchId := fun b hb hid => hstored ⟨b, hb, hid⟩
    rw [settle_absent hnone now]
    exact .of_eq rfl rfl

end

end StarkbankTrial.OpenWork
