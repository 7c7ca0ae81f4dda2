import StarkbankTrial.CreatedDrafts
import StarkbankTrial.InvoiceOnce
import StarkbankTrial.UndisturbedServices

/-!
# Drafts, batches and trials that agree

What the tables say of one trial fits together: drafts stand at the ordinals of their batch,
each with its owned row, a batch is completed by its drafts and a trial by its batches. Every
transaction of a service that is not disturbed keeps it so, and no batch that was completed
is open again.
-/
namespace StarkbankTrial.TrialInvariants
open Domain InteractivePrograms RelationalTables Transaction DatabaseSchema
open DatabaseSchema.Table
open EventRecording InvoiceRecording BatchClaims StoreOperations InvoiceChanges ExternalCalls
open BatchChanges Services CreatedDrafts InvoiceOnce UndisturbedServices

/-! ### The invariant -/

/-- The owned rows of drafts are theirs. -/
structure Paired (db : Database Row) : Prop where
  agreed : Agreed db
  stored : ∀ o ∈ db ownedInvoices, ∀ id, o.draftId = some id →
    ∃ d ∈ db invoiceDrafts, d.id = id ∧ d.tag = o.tag
  tags : ∀ d ∈ db invoiceDrafts, IsDraftTag d.tag

/-- A draft has the id that its batch and its ordinal give it. -/
def At (gen : Generators) (b : InvoiceBatchRow) (d : InvoiceDraftRow) (k : ℕ) : Prop :=
  d.ordinal = k ∧ d.id = gen.uuid5 (b.id ++ ":draft:" ++ toString k)

/-- Drafts stand at ordinals of their batch, and with one draft a batch has them all. -/
structure Placed (gen : Generators) (db : Database Row) : Prop where
  placed : ∀ d ∈ db invoiceDrafts, ∃ b ∈ db invoiceBatches, b.id = d.batchId ∧
    ∃ k < b.targetCount.toNat, At gen b d k
  whole : ∀ d ∈ db invoiceDrafts, ∀ b ∈ db invoiceBatches, b.id = d.batchId →
    ∀ k < b.targetCount.toNat, ∃ d' ∈ db invoiceDrafts, d'.batchId = b.id ∧ d'.ordinal = k

/-- The drafts of the batch are there and have their invoices. -/
def Issued (db : Database Row) (b : InvoiceBatchRow) : Prop :=
  (∃ d ∈ db invoiceDrafts, d.batchId = b.id) ∧
    ∀ d ∈ db invoiceDrafts, d.batchId = b.id → d.status = .created

/-- The batches of one trial. -/
def batchesOf (runId : TrialRunId) (db : Database Row) : List InvoiceBatchRow :=
  (db invoiceBatches).filter fun b : InvoiceBatchRow => b.runId == runId

/-- Batches follow their drafts, and trials their batches. -/
structure Tracked (db : Database Row) : Prop where
  run : ∀ b ∈ db invoiceBatches, ∃ r ∈ db trialRuns, r.id = b.runId
  eight : ∀ r ∈ db trialRuns, (batchesOf r.id db).length = 8
  issued : ∀ b ∈ db invoiceBatches, b.status = .completed → Issued db b
  completed : ∀ r ∈ db trialRuns, r.status = .completed ↔
    ∀ b ∈ db invoiceBatches, b.runId = r.id → b.status = .completed
  degraded : ∀ r ∈ db trialRuns, ∀ b ∈ db invoiceBatches, b.runId = r.id →
    b.status = .degraded → r.status = .degraded
  active : ∀ r ∈ db trialRuns, r.activeMarker = some 1 ↔ r.status = .active

structure Fitting (gen : Generators) (db : Database Row) : Prop where
  consistent : metadata.Consistent db
  paired : Paired db
  placed : Placed gen db
  tracked : Tracked db

/-- A completed batch stays completed. -/
def StaysCompleted (db db' : Database Row) : Prop :=
  ∀ b ∈ db invoiceBatches, b.status = .completed →
    ∃ b' ∈ db' invoiceBatches, b'.id = b.id ∧ b'.status = .completed

section
variable {gen : Generators} {db db' : Database Row}

theorem StaysCompleted.of_eq (hbatches : db' invoiceBatches = db invoiceBatches) :
    StaysCompleted db db' := fun b hb hstatus => ⟨b, hbatches ▸ hb, rfl, hstatus⟩

theorem StaysCompleted.trans {db'' : Database Row} (h : StaysCompleted db db')
    (h' : StaysCompleted db' db'') : StaysCompleted db db'' := by
  intro b hb hstatus
  obtain ⟨b', hb', hid, hstatus'⟩ := h b hb hstatus
  obtain ⟨b'', hb'', hid', hstatus''⟩ := h' b' hb' hstatus'
  exact ⟨b'', hb'', hid'.trans hid, hstatus''⟩

theorem fitting_empty : Fitting gen emptyDatabase where
  consistent := emptyDatabase_consistent
  paired := ⟨⟨by simp [emptyDatabase], by simp [emptyDatabase], by simp [emptyDatabase]⟩,
    by simp [emptyDatabase], by simp [emptyDatabase]⟩
  placed := ⟨by simp [emptyDatabase], by simp [emptyDatabase]⟩
  tracked := ⟨by simp [emptyDatabase], by simp [emptyDatabase], by simp [emptyDatabase],
    by simp [emptyDatabase], by simp [emptyDatabase], by simp [emptyDatabase]⟩

/-- The order of the rows does not matter. -/
theorem Fitting.reordered (h : Fitting gen db) (hdb : Reordered db db') : Fitting gen db' where
  consistent := hdb.consistent h.consistent
  paired :=
    { agreed := h.paired.agreed.reordered hdb
      stored := fun o ho id hdraft => by
        obtain ⟨d, hd, hrest⟩ := h.paired.stored o (hdb.mem.mp ho) id hdraft
        exact ⟨d, hdb.mem.mpr hd, hrest⟩
      tags := fun d hd => h.paired.tags d (hdb.mem.mp hd) }
  placed :=
    { placed := fun d hd => by
        obtain ⟨b, hb, hrest⟩ := h.placed.placed d (hdb.mem.mp hd)
        exact ⟨b, hdb.mem.mpr hb, hrest⟩
      whole := fun d hd b hb hid k hk => by
        obtain ⟨d', hd', hrest⟩ := h.placed.whole d (hdb.mem.mp hd) b (hdb.mem.mp hb) hid k hk
        exact ⟨d', hdb.mem.mpr hd', hrest⟩ }
  tracked :=
    { run := fun b hb => by
        obtain ⟨r, hr, hid⟩ := h.tracked.run b (hdb.mem.mp hb)
        exact ⟨r, hdb.mem.mpr hr, hid⟩
      eight := fun r hr => by
        rw [← h.tracked.eight r (hdb.mem.mp hr)]
        exact ((hdb invoiceBatches).filter _).length_eq.symm
      issued := fun b hb hstatus => by
        obtain ⟨⟨d, hd, hid⟩, hall⟩ := h.tracked.issued b (hdb.mem.mp hb) hstatus
        exact ⟨⟨d, hdb.mem.mpr hd, hid⟩, fun d' hd' => hall d' (hdb.mem.mp hd')⟩
      completed := fun r hr => (h.tracked.completed r (hdb.mem.mp hr)).trans
        ⟨fun hall b hb => hall b (hdb.mem.mp hb), fun hall b hb => hall b (hdb.mem.mpr hb)⟩
      degraded := fun r hr b hb => h.tracked.degraded r (hdb.mem.mp hr) b (hdb.mem.mp hb)
      active := fun r hr => h.tracked.active r (hdb.mem.mp hr) }

/-! ### Writes to drafts -/

/-- The drafts are the same ones, and none that was created falls back. -/
structure Advanced (db db' : Database Row) : Prop where
  forward : ∀ d ∈ db invoiceDrafts, ∃ d' ∈ db' invoiceDrafts, d'.id = d.id ∧ d'.tag = d.tag ∧
    d'.batchId = d.batchId ∧ d'.ordinal = d.ordinal
  back : ∀ d' ∈ db' invoiceDrafts, ∃ d ∈ db invoiceDrafts, d'.id = d.id ∧ d'.tag = d.tag ∧
    d'.batchId = d.batchId ∧ d'.ordinal = d.ordinal ∧ (d.status = .created → d'.status = .created)

theorem Advanced.map {f : InvoiceDraftRow → InvoiceDraftRow}
    (hdrafts : db' invoiceDrafts = (db invoiceDrafts).map f)
    (hf : ∀ d ∈ db invoiceDrafts, (f d).id = d.id ∧ (f d).tag = d.tag ∧
      (f d).batchId = d.batchId ∧ (f d).ordinal = d.ordinal ∧
      (d.status = .created → (f d).status = .created)) : Advanced db db' where
  forward d hd := by
    obtain ⟨hid, htag, hbatch, hordinal, -⟩ := hf d hd
    exact ⟨f d, hdrafts ▸ List.mem_map_of_mem hd, hid, htag, hbatch, hordinal⟩
  back d' hd' := by
    rw [hdrafts] at hd'
    obtain ⟨d, hd, rfl⟩ := List.mem_map.mp hd'
    exact ⟨d, hd, hf d hd⟩

theorem Advanced.of_eq (hdrafts : db' invoiceDrafts = db invoiceDrafts) : Advanced db db' :=
  .map (f := fun d => d) (by simp [hdrafts]) fun d _ => ⟨rfl, rfl, rfl, rfl, fun h => h⟩

/-- An assignment to the draft with one id. -/
theorem Advanced.assigned {id : DraftId} {assign : InvoiceDraftRow → InvoiceDraftRow}
    (hdrafts : db' invoiceDrafts = assignWhere (fun d : InvoiceDraftRow => d.id == id) assign
      (db invoiceDrafts))
    (hkeeps : ∀ d, (assign d).id = d.id ∧ (assign d).tag = d.tag ∧
      (assign d).batchId = d.batchId ∧ (assign d).ordinal = d.ordinal)
    (hstatus : ∀ d ∈ db invoiceDrafts, d.id = id → d.status = .created →
      (assign d).status = .created) : Advanced db db' := by
  refine .map hdrafts fun d hd => ?_
  split_ifs with hid
  · obtain ⟨hid', htag, hbatch, hordinal⟩ := hkeeps d
    exact ⟨hid', htag, hbatch, hordinal, hstatus d hd (beq_iff_eq.mp hid)⟩
  · exact ⟨rfl, rfl, rfl, rfl, fun h => h⟩

theorem Placed.advanced (h : Placed gen db) (ha : Advanced db db')
    (hbatches : db' invoiceBatches = db invoiceBatches) : Placed gen db' where
  placed d' hd' := by
    obtain ⟨d, hd, hid, -, hbatch, hordinal, -⟩ := ha.back d' hd'
    unfold At
    rw [hid, hbatch, hordinal, hbatches]
    exact h.placed d hd
  whole d' hd' b hb hbatch' k hk := by
    obtain ⟨d, hd, -, -, hbatch, -⟩ := ha.back d' hd'
    rw [hbatches] at hb
    obtain ⟨e, he, hrest⟩ := h.whole d hd b hb (hbatch'.trans hbatch) k hk
    obtain ⟨e', he', -, -, hb', ho'⟩ := ha.forward e he
    exact ⟨e', he', hb'.trans hrest.1, ho'.trans hrest.2⟩

theorem Tracked.advanced (h : Tracked db) (ha : Advanced db db')
    (hbatches : db' invoiceBatches = db invoiceBatches) (hruns : db' trialRuns = db trialRuns) :
    Tracked db' where
  run := by rw [hbatches, hruns]; exact h.run
  eight := by unfold batchesOf; rw [hbatches, hruns]; exact h.eight
  issued b hb hstatus := by
    rw [hbatches] at hb
    obtain ⟨⟨d, hd, hid⟩, hall⟩ := h.issued b hb hstatus
    obtain ⟨d', hd', -, -, hbatch, -⟩ := ha.forward d hd
    refine ⟨⟨d', hd', hbatch.trans hid⟩, fun e' he' hid' => ?_⟩
    obtain ⟨e, he, -, -, hbatch', -, hcreated⟩ := ha.back e' he'
    exact hcreated (hall e he (hbatch'.symm.trans hid'))
  completed := by rw [hbatches, hruns]; exact h.completed
  degraded := by rw [hbatches, hruns]; exact h.degraded
  active := by rw [hruns]; exact h.active

/-- Owned rows change in place. -/
theorem Paired.advanced (h : Paired db) (hagreed : Agreed db') (ha : Advanced db db')
    (howned : ∀ o' ∈ db' ownedInvoices, ∀ id, o'.draftId = some id →
      ∃ o ∈ db ownedInvoices, o.draftId = some id ∧ o.tag = o'.tag) : Paired db' where
  agreed := hagreed
  stored o' ho' id hdraft := by
    obtain ⟨o, ho, hdraft', htag⟩ := howned o' ho' id hdraft
    obtain ⟨d, hd, hid, htag'⟩ := h.stored o ho id hdraft'
    obtain ⟨d', hd', hid'', htag'', -⟩ := ha.forward d hd
    exact ⟨d', hd', hid''.trans hid, htag''.trans (htag'.trans htag)⟩
  tags d' hd' := by
    obtain ⟨d, hd, -, htag, -⟩ := ha.back d' hd'
    exact htag ▸ h.tags d hd

theorem owners_assigned {condition : OwnedInvoiceRow → Bool}
    {assign : OwnedInvoiceRow → OwnedInvoiceRow} {owned : List OwnedInvoiceRow}
    (hassign : ∀ o, (assign o).tag = o.tag ∧ (assign o).draftId = o.draftId) :
    ∀ o' ∈ assignWhere condition assign owned, ∀ id, o'.draftId = some id →
      ∃ o ∈ owned, o.draftId = some id ∧ o.tag = o'.tag := by
  intro o' ho' id hdraft
  obtain ⟨o, ho, rfl⟩ := List.mem_map.mp ho'
  refine ⟨o, ho, ?_, ?_⟩
  · split_ifs at hdraft
    · exact (hassign o).2 ▸ hdraft
    · exact hdraft
  · split_ifs
    · exact (hassign o).1.symm
    · rfl

/-- A transaction that changes drafts and owned rows in place. -/
theorem Fitting.advanced (h : Fitting gen db) (hc : metadata.Consistent db')
    (hagreed : Agreed db') (ha : Advanced db db')
    (howned : ∀ o' ∈ db' ownedInvoices, ∀ id, o'.draftId = some id →
      ∃ o ∈ db ownedInvoices, o.draftId = some id ∧ o.tag = o'.tag)
    (hbatches : db' invoiceBatches = db invoiceBatches) (hruns : db' trialRuns = db trialRuns) :
    Fitting gen db' :=
  ⟨hc, h.paired.advanced hagreed ha howned, h.placed.advanced ha hbatches,
    h.tracked.advanced ha hbatches hruns⟩

/-! ### Saving the drafts of a batch -/

/-- A batch gets all its drafts, or none because it has them. -/
theorem newDrafts_cases (h : Placed gen db) {b : InvoiceBatchRow} (hb : b ∈ db invoiceBatches)
    {batch : InvoiceBatch} (hid : b.id = batch.id) (htarget : b.targetCount = batch.targetCount)
    (time : ℤ) :
    newDrafts batch.id (buildInvoiceDrafts gen batch time) (db invoiceDrafts) = [] ∨
      (∀ d ∈ db invoiceDrafts, d.batchId ≠ batch.id) ∧
        newDrafts batch.id (buildInvoiceDrafts gen batch time) (db invoiceDrafts) =
          (buildInvoiceDrafts gen batch time).map draftRow := by
  unfold newDrafts
  by_cases hany : ∃ d ∈ db invoiceDrafts, d.batchId = batch.id
  · refine .inl (List.map_eq_nil_iff.mpr (List.filter_eq_nil_iff.mpr fun draft hdraft => ?_))
    obtain ⟨d, hd, hbatch⟩ := hany
    obtain ⟨k, hk, rfl⟩ := List.mem_map.mp hdraft
    rw [List.mem_range, ← htarget] at hk
    -- the draft at this ordinal is stored, with the id that the ordinal gives
    obtain ⟨d', hd', hbatch', hordinal⟩ := h.whole d hd b hb (hid.trans hbatch.symm) k hk
    obtain ⟨b', -, hid', k', -, hordinal', hdraftId⟩ := h.placed d' hd'
    obtain rfl : k' = k := by exact_mod_cast hordinal'.symm.trans hordinal
    rw [hid', hbatch', hid] at hdraftId
    simp only [Bool.not_eq_true', Bool.not_eq_false, List.any_eq_true, List.mem_filter, beq_iff_eq]
    exact ⟨d', ⟨hd', hbatch'.trans hid⟩, hdraftId⟩
  · push Not at hany
    refine .inr ⟨hany, ?_⟩
    have hnone : (db invoiceDrafts).filter (fun d : InvoiceDraftRow => d.batchId == batch.id) = [] :=
      List.filter_eq_nil_iff.mpr fun d hd hbatch => hany d hd (beq_iff_eq.mp hbatch)
    simp [hnone]

/-- The drafts that are built stand at the ordinals of their batch. -/
theorem mem_build {batch : InvoiceBatch} {time : ℤ} {d : InvoiceDraftRow}
    (hd : d ∈ (buildInvoiceDrafts gen batch time).map draftRow) :
    ∃ k < batch.targetCount.toNat, d.batchId = batch.id ∧ d.ordinal = (k : ℤ) ∧
      d.id = gen.uuid5 (batch.id ++ ":draft:" ++ toString k) ∧ d.tag = "trial-draft:" ++ d.id ∧
      d.status = .pending ∧ d.providerInvoiceId = none := by
  obtain ⟨draft, hdraft, rfl⟩ := List.mem_map.mp hd
  obtain ⟨k, hk, rfl⟩ := List.mem_map.mp hdraft
  exact ⟨k, List.mem_range.mp hk, rfl, rfl, rfl, rfl, rfl, rfl⟩

theorem build_mem {batch : InvoiceBatch} {time : ℤ} {k : ℕ} (hk : k < batch.targetCount.toNat) :
    ∃ d ∈ (buildInvoiceDrafts gen batch time).map draftRow, d.batchId = batch.id ∧
      d.ordinal = (k : ℤ) :=
  ⟨_, List.mem_map_of_mem (List.mem_map_of_mem (List.mem_range.mpr hk)), rfl, rfl⟩

theorem Fitting.saved (h : Fitting gen db) (hc : metadata.Consistent db') {batch : InvoiceBatch}
    {time : ℤ} (hclaimed : Claimed batch db)
    (hdrafts : db' invoiceDrafts = db invoiceDrafts ++
      newDrafts batch.id (buildInvoiceDrafts gen batch time) (db invoiceDrafts))
    (howned : db' ownedInvoices = db ownedInvoices ++
      (newDrafts batch.id (buildInvoiceDrafts gen batch time) (db invoiceDrafts)).map trialOwner)
    (hbatches : db' invoiceBatches = db invoiceBatches) (hruns : db' trialRuns = db trialRuns) :
    Fitting gen db' := by
  obtain ⟨b, hb, hid, htarget, -⟩ := hclaimed
  rcases newDrafts_cases h.placed hb hid htarget time with hnone | ⟨hfree, hall⟩
  · rw [hnone, List.append_nil] at hdrafts
    rw [hnone, List.map_nil, List.append_nil] at howned
    exact h.advanced hc (h.paired.agreed.of_eq hdrafts howned) (.of_eq hdrafts)
      (fun o ho id hdraft => ⟨o, howned ▸ ho, hdraft, rfl⟩) hbatches hruns
  · rw [hall] at hdrafts howned
    have hold : ∀ d ∈ db invoiceDrafts, d ∈ db' invoiceDrafts :=
      fun d hd => hdrafts ▸ List.mem_append.mpr (.inl hd)
    have hnew : ∀ d ∈ (buildInvoiceDrafts gen batch time).map draftRow, d ∈ db' invoiceDrafts :=
      fun d hd => hdrafts ▸ List.mem_append.mpr (.inr hd)
    have hkey : ∀ b' ∈ db invoiceBatches, b'.id = batch.id → b' = b :=
      fun b' hb' hid' => (h.consistent invoiceBatches).eq_of_key hb' hb (hid'.trans hid.symm)
    refine ⟨hc, ⟨?_, fun o ho id hdraft => ?_, fun d hd => ?_⟩,
      ⟨fun d hd => ?_, fun d hd b' hb' hid' k hk => ?_⟩, ?_⟩
    · refine h.paired.agreed.saved hc h.paired.stored (fun d hd => ?_) hdrafts howned
      obtain ⟨k, -, -, -, -, -, hpending, hnone⟩ := mem_build hd
      simp [hpending, hnone]
    · rw [howned] at ho
      rcases List.mem_append.mp ho with ho | ho
      · obtain ⟨d, hd, hrest⟩ := h.paired.stored o ho id hdraft
        exact ⟨d, hold d hd, hrest⟩
      · obtain ⟨d, hd, rfl⟩ := List.mem_map.mp ho
        exact ⟨d, hnew d hd, Option.some.inj hdraft, rfl⟩
    · rw [hdrafts] at hd
      rcases List.mem_append.mp hd with hd | hd
      · exact h.paired.tags d hd
      · obtain ⟨k, -, -, -, -, htag, -⟩ := mem_build hd
        exact ⟨d.id, htag⟩
    · rw [hdrafts] at hd
      rw [hbatches]
      rcases List.mem_append.mp hd with hd | hd
      · exact h.placed.placed d hd
      · obtain ⟨k, hk, hbatch, hordinal, hdraftId, -⟩ := mem_build hd
        exact ⟨b, hb, hid.trans hbatch.symm, k, htarget ▸ hk, hordinal, hid ▸ hdraftId⟩
    · rw [hdrafts] at hd
      rw [hbatches] at hb'
      rcases List.mem_append.mp hd with hd | hd
      · obtain ⟨d', hd', hrest⟩ := h.placed.whole d hd b' hb' hid' k hk
        exact ⟨d', hold d' hd', hrest⟩
      · obtain ⟨-, -, hbatch, -⟩ := mem_build hd
        obtain rfl := hkey b' hb' (hid'.trans hbatch)
        obtain ⟨d', hd', hbatch', hordinal⟩ := build_mem (htarget ▸ hk)
        exact ⟨d', hnew d' hd', hbatch'.trans hid.symm, hordinal⟩
    · have htracked := h.tracked
      refine { htracked with
        run := by rw [hbatches, hruns]; exact htracked.run
        eight := by unfold batchesOf; rw [hbatches, hruns]; exact htracked.eight
        issued := fun b' hb' hstatus => ?_
        completed := by rw [hbatches, hruns]; exact htracked.completed
        degraded := by rw [hbatches, hruns]; exact htracked.degraded
        active := by rw [hruns]; exact htracked.active }
      rw [hbatches] at hb'
      obtain ⟨⟨d, hd, hbatch⟩, hcreated⟩ := htracked.issued b' hb' hstatus
      refine ⟨⟨d, hold d hd, hbatch⟩, fun d' hd' hbatch' => ?_⟩
      rw [hdrafts] at hd'
      rcases List.mem_append.mp hd' with hd' | hd'
      · exact hcreated d' hd' hbatch'
      · -- a completed batch has drafts already
        obtain ⟨-, -, hnew', -⟩ := mem_build hd'
        exact absurd (hbatch.trans (hbatch'.symm.trans hnew')) (hfree d hd)

/-! ### The other operations of the invoice store -/

/-- What the services keep to when they write drafts and owned rows. -/
structure PermittedWrite (gen : Generators) (db : Database Row) (op : InvoiceStoreOp) : Prop where
  spares : Spares db (.store (.invoices op))
  saves : ∀ batchId ds, op = .save batchId ds → ∃ batch time, Claimed batch db ∧
    batchId = batch.id ∧ ds = buildInvoiceDrafts gen batch time
  binds : ∀ tag id time, op = .bindProviderInvoice tag id time → ¬ IsDraftTag tag

/-- Binding a row that belongs to no draft. -/
theorem Paired.bound (h : Paired db) {tag : String} (htag : ¬ IsDraftTag tag)
    {assign : OwnedInvoiceRow → OwnedInvoiceRow} (hassign : ∀ o, (assign o).draftId = o.draftId)
    (hdrafts : db' invoiceDrafts = db invoiceDrafts)
    (howned : db' ownedInvoices = assignWhere (fun o : OwnedInvoiceRow => o.tag == tag) assign
      (db ownedInvoices)) : Agreed db' := by
  have hmap : db' invoiceDrafts = (db invoiceDrafts).map fun d => d := by simp [hdrafts]
  refine h.agreed.map hmap howned (fun _ => rfl) (fun o => ?_) h.agreed.status
    fun d hd o ho hdraft => ?_
  · split_ifs
    · exact hassign o
    · rfl
  · obtain ⟨d', hd', -, htag'⟩ := h.stored o ho d.id hdraft
    have hne : o.tag ≠ tag := fun heq => htag (heq ▸ htag' ▸ h.tags d' hd')
    simp [hne, h.agreed.same d hd o ho hdraft]

theorem invoices_fitting (h : Fitting gen db) {op : InvoiceStoreOp}
    (hsettle : ∀ batchId now, op ≠ .settle batchId now) (hop : PermittedWrite gen db op) :
    Fitting gen ((StoreOp.invoices op).apply db).2 := by
  have hc := StoreOp.apply_consistent h.consistent (.invoices op)
  have hframe : invoiceBatches ∉ InvoiceStoreOp.tables op ∧
      trialRuns ∉ InvoiceStoreOp.tables op := by
    cases op with
    | settle batchId now => exact absurd rfl (hsettle batchId now)
    | _ => simp [InvoiceStoreOp.tables]
  have hbatches := StoreOp.apply_frame (.invoices op) hframe.1 db
  have hruns := StoreOp.apply_frame (.invoices op) hframe.2 db
  have hchanged := invoices_changes op db
  unfold InvoicesChangedIn at hchanged
  generalize ((StoreOp.invoices op).apply db).2 = db' at hc hchanged hbatches hruns ⊢
  generalize hdrafts : db' invoiceDrafts = drafts' at hchanged
  generalize howned : db' ownedInvoices = owned' at hchanged
  have hagreed := h.paired.agreed
  cases hchanged with
  | same =>
      exact h.advanced hc (hagreed.of_eq hdrafts howned) (.of_eq hdrafts)
        (fun o ho id hdraft => ⟨o, howned ▸ ho, hdraft, rfl⟩) hbatches hruns
  | @saved batchId ds heq =>
      obtain ⟨batch, time, hclaimed, rfl, rfl⟩ := hop.saves batchId ds heq
      exact h.saved hc hclaimed hdrafts howned hbatches hruns
  | @registered draft time =>
      refine h.advanced hc (hagreed.registered hdrafts howned) (.of_eq hdrafts)
        (fun o ho id hdraft => ?_) hbatches hruns
      rw [howned] at ho
      rcases List.mem_append.mp ho with ho | ho
      · exact ⟨o, ho, hdraft, rfl⟩
      · obtain rfl := List.mem_singleton.mp ho
        simp [smokeOwner] at hdraft
  | @bound tag id time assign heq hassign =>
      refine h.advanced hc (h.paired.bound (hop.binds tag id time heq)
        (fun o => (hassign o).2.1) hdrafts howned) (.of_eq hdrafts) ?_ hbatches hruns
      exact howned ▸ owners_assigned fun o => ⟨(hassign o).1, (hassign o).2.1⟩
  | @transitioned t heq =>
      obtain ⟨hstatus, hmissing⟩ := transitionOf_status heq
      refine h.advanced hc (hagreed.transition hstatus hdrafts howned)
        (.assigned hdrafts (fun d => ⟨rfl, rfl, rfl, rfl⟩) fun d hd hid hcreated => ?_)
        (howned ▸ owners_assigned fun o => ⟨rfl, rfl⟩) hbatches hruns
      -- a write without an invoice does not land on a created draft
      refine hstatus.mpr fun hnone => ?_
      exact hop.spares t.draftId (hmissing hnone) d hd hid hcreated
  | @retried result delay maxAttempts draft heq =>
      have hspared := hop.spares result.draftId (by rw [heq]; rfl)
      exact h.advanced hc (hagreed.missing hdrafts howned hspared (fun _ => rfl)
          (retryDraft_status _ _ _ _) fun _ _ => rfl)
        (.assigned hdrafts (fun d => ⟨rfl, rfl, rfl, rfl⟩)
          fun d hd hid hcreated => absurd hcreated (hspared d hd hid))
        (fun o ho id hdraft => ⟨o, howned ▸ ho, hdraft, rfl⟩) hbatches hruns
  | @missed draft time limits stored heq =>
      have hspared := hop.spares draft.id (by rw [heq]; rfl)
      exact h.advanced hc (hagreed.missing hdrafts howned hspared (fun _ => rfl)
          (missDraft_status _ _ _ _) fun _ hnone => hnone)
        (.assigned hdrafts (fun d => ⟨rfl, rfl, rfl, rfl⟩)
          fun d hd hid hcreated => absurd hcreated (hspared d hd hid))
        (fun o ho id hdraft => ⟨o, howned ▸ ho, hdraft, rfl⟩) hbatches hruns

/-! ### Events -/

theorem events_fitting (h : Fitting gen db) (op : EventStoreOp) :
    Fitting gen ((StoreOp.events op).apply db).2 := by
  have hc := StoreOp.apply_consistent h.consistent (.events op)
  have hframe : invoiceBatches ∉ EventStoreOp.tables op ∧ trialRuns ∉ EventStoreOp.tables op := by
    cases op <;> simp [EventStoreOp.tables]
  have hbatches := StoreOp.apply_frame (.events op) hframe.1 db
  have hruns := StoreOp.apply_frame (.events op) hframe.2 db
  have hsame : ∀ {db' : Database Row}, metadata.Consistent db' →
      db' invoiceDrafts = db invoiceDrafts → db' ownedInvoices = db ownedInvoices →
      db' invoiceBatches = db invoiceBatches → db' trialRuns = db trialRuns → Fitting gen db' :=
    fun hc hdrafts howned => h.advanced hc (h.paired.agreed.of_eq hdrafts howned) (.of_eq hdrafts)
      fun o ho id hdraft => ⟨o, howned ▸ ho, hdraft, rfl⟩
  cases op with
  | recordIgnoredWorkspace r =>
      exact hsame hc (StoreOp.apply_frame (.events (.recordIgnoredWorkspace r))
          (by simp [StoreOp.tables, EventStoreOp.tables]) db)
        (StoreOp.apply_frame (.events (.recordIgnoredWorkspace r))
          (by simp [StoreOp.tables, EventStoreOp.tables]) db) hbatches hruns
  | record jobId r =>
      have hagreed := (record_keeps h.paired.agreed h.consistent jobId r).1
      cases record_changes jobId r h.consistent with
      | untouched hdrafts howned _ => exact hsame hc hdrafts howned hbatches hruns
      | @owned event o _ ho _ hdrafts howned _ =>
          refine h.advanced hc hagreed ?_ ?_ hbatches hruns
          · unfold createdDrafts at hdrafts
            cases hdraft : o.draftId with
            | none => exact .of_eq (by simpa [hdraft] using hdrafts)
            | some draftId =>
                simp only [hdraft] at hdrafts
                refine .map hdrafts fun d _ => ?_
                split_ifs
                · exact ⟨rfl, rfl, rfl, rfl, fun _ => rfl⟩
                · exact ⟨rfl, rfl, rfl, rfl, fun hcreated => hcreated⟩
          · rw [howned]
            exact owners_assigned fun o => ⟨rfl, rfl⟩

/-! ### Batches and trials -/

/-- What is written of trials follows what is written of batches. -/
structure Follows (db : Database Row) (g : InvoiceBatchRow → InvoiceBatchRow)
    (f : TrialRunRow → TrialRunRow) : Prop where
  id : ∀ r, (f r).id = r.id
  completed : ∀ r ∈ db trialRuns, (f r).status = .completed ↔
    ∀ b ∈ db invoiceBatches, b.runId = r.id → (g b).status = .completed
  degraded : ∀ r ∈ db trialRuns, ∀ b ∈ db invoiceBatches, b.runId = r.id →
    (g b).status = .degraded → (f r).status = .degraded
  active : ∀ r ∈ db trialRuns, (f r).activeMarker = some 1 ↔ (f r).status = .active

/-- What identifies a batch stays. -/
def KeepsBatches (g : InvoiceBatchRow → InvoiceBatchRow) : Prop :=
  ∀ b, (g b).id = b.id ∧ (g b).runId = b.runId ∧ (g b).targetCount = b.targetCount

/-- Batches and trials change in place. -/
theorem Fitting.tracked_map (h : Fitting gen db) (hc : metadata.Consistent db')
    {g : InvoiceBatchRow → InvoiceBatchRow} {f : TrialRunRow → TrialRunRow}
    (hdrafts : db' invoiceDrafts = db invoiceDrafts)
    (howned : db' ownedInvoices = db ownedInvoices)
    (hbatches : db' invoiceBatches = (db invoiceBatches).map g)
    (hruns : db' trialRuns = (db trialRuns).map f) (hg : KeepsBatches g) (hf : Follows db g f)
    (hissued : ∀ b ∈ db invoiceBatches, (g b).status = .completed → Issued db b) :
    Fitting gen db' where
  consistent := hc
  paired := by
    refine h.paired.advanced (h.paired.agreed.of_eq hdrafts howned) (.of_eq hdrafts) ?_
    exact fun o ho id hdraft => ⟨o, howned ▸ ho, hdraft, rfl⟩
  placed :=
    { placed := fun d hd => by
        obtain ⟨b, hb, hid, k, hk, hat⟩ := h.placed.placed d (hdrafts ▸ hd)
        refine ⟨g b, hbatches ▸ List.mem_map_of_mem hb, (hg b).1.trans hid, k, ?_, ?_⟩
        · rwa [(hg b).2.2]
        · unfold At
          rwa [(hg b).1]
      whole := fun d hd b' hb' hid k hk => by
        rw [hbatches] at hb'
        obtain ⟨b, hb, rfl⟩ := List.mem_map.mp hb'
        rw [(hg b).1] at hid ⊢
        rw [(hg b).2.2] at hk
        rw [hdrafts] at hd ⊢
        exact h.placed.whole d hd b hb hid k hk }
  tracked :=
    { run := fun b' hb' => by
        rw [hbatches] at hb'
        obtain ⟨b, hb, rfl⟩ := List.mem_map.mp hb'
        obtain ⟨r, hr, hid⟩ := h.tracked.run b hb
        exact ⟨f r, hruns ▸ List.mem_map_of_mem hr, (hf.id r).trans (hid.trans (hg b).2.1.symm)⟩
      eight := fun r' hr' => by
        rw [hruns] at hr'
        obtain ⟨r, hr, rfl⟩ := List.mem_map.mp hr'
        have height := h.tracked.eight r hr
        unfold batchesOf at height ⊢
        rw [hbatches, hf.id, List.filter_map, List.length_map]
        simpa [Function.comp_def, (hg _).2.1] using height
      issued := fun b' hb' hstatus => by
        rw [hbatches] at hb'
        obtain ⟨b, hb, rfl⟩ := List.mem_map.mp hb'
        unfold Issued
        rw [hdrafts, (hg b).1]
        exact hissued b hb hstatus
      completed := fun r' hr' => by
        rw [hruns] at hr'
        obtain ⟨r, hr, rfl⟩ := List.mem_map.mp hr'
        rw [hf.completed r hr, hbatches, hf.id]
        simp only [List.forall_mem_map, (hg _).2.1]
      degraded := fun r' hr' b' hb' hrun hstatus => by
        rw [hruns] at hr'
        rw [hbatches] at hb'
        obtain ⟨r, hr, rfl⟩ := List.mem_map.mp hr'
        obtain ⟨b, hb, rfl⟩ := List.mem_map.mp hb'
        exact hf.degraded r hr b hb ((hg b).2.1.symm.trans (hrun.trans (hf.id r))) hstatus
      active := fun r' hr' => by
        rw [hruns] at hr'
        obtain ⟨r, hr, rfl⟩ := List.mem_map.mp hr'
        exact hf.active r hr }

/-! ### Completed batches -/

theorem target_pos (hc : metadata.Consistent db) {b : InvoiceBatchRow}
    (hb : b ∈ db invoiceBatches) : 0 < b.targetCount := by
  have hcheck : (8 ≤ b.targetCount ∧ b.targetCount ≤ 12) ∧ 0 ≤ b.slotIndex ∧ b.slotIndex ≤ 7 := by
    simpa [metadata, rowCheck] using (hc invoiceBatches).1 b hb
  omega

/-- The drafts of a batch that has any stand at all its ordinals, each at one. -/
theorem ordinals_perm (h : Fitting gen db) {b : InvoiceBatchRow} (hb : b ∈ db invoiceBatches)
    (hsome : ∃ d ∈ db invoiceDrafts, d.batchId = b.id) :
    ((draftsOf b.id db).map InvoiceDraftRow.ordinal).Perm
      ((List.range b.targetCount.toNat).map fun k : ℕ => (k : ℤ)) := by
  have hdistinct : ((draftsOf b.id db).map InvoiceDraftRow.ordinal).Nodup := by
    refine List.pairwise_map.mpr (List.Pairwise.imp_of_mem (fun {d d'} hd hd' hclash heq => ?_)
      ((h.consistent invoiceDrafts).2.sublist List.filter_sublist))
    have hbatch : d.batchId = b.id := beq_iff_eq.mp (List.mem_filter.mp hd).2
    have hbatch' : d'.batchId = b.id := beq_iff_eq.mp (List.mem_filter.mp hd').2
    simp [metadata, uniqueConflict, hbatch, hbatch', heq] at hclash
  have hrange : ((List.range b.targetCount.toNat).map fun k : ℕ => (k : ℤ)).Nodup :=
    List.Nodup.map (fun _ _ heq => Int.ofNat.inj heq) List.nodup_range
  refine (List.perm_ext_iff_of_nodup hdistinct hrange).mpr fun n => ?_
  constructor
  · intro hn
    obtain ⟨d, hd, rfl⟩ := List.mem_map.mp hn
    obtain ⟨hd, hbatch⟩ := List.mem_filter.mp hd
    obtain ⟨b', hb', hid, k, hk, hordinal, -⟩ := h.placed.placed d hd
    obtain rfl := (h.consistent invoiceBatches).eq_of_key hb' hb (hid.trans (beq_iff_eq.mp hbatch))
    exact List.mem_map.mpr ⟨k, List.mem_range.mpr hk, hordinal.symm⟩
  · intro hn
    obtain ⟨k, hk, rfl⟩ := List.mem_map.mp hn
    obtain ⟨d, hd, hbatch⟩ := hsome
    obtain ⟨d', hd', hbatch', hordinal⟩ :=
      h.placed.whole d hd b hb hbatch.symm k (List.mem_range.mp hk)
    exact List.mem_map.mpr ⟨d', List.mem_filter.mpr ⟨hd', beq_iff_eq.mpr hbatch'⟩, hordinal⟩

theorem draftsOf_length (h : Fitting gen db) {b : InvoiceBatchRow} (hb : b ∈ db invoiceBatches)
    (hsome : ∃ d ∈ db invoiceDrafts, d.batchId = b.id) :
    ((draftsOf b.id db).length : ℤ) = b.targetCount := by
  have hlength := (ordinals_perm h hb hsome).length_eq
  rw [List.length_map, List.length_map, List.length_range] at hlength
  have htarget := target_pos h.consistent hb
  omega

theorem settledStatus_completed {b : InvoiceBatchRow} {drafts : List InvoiceDraftRow} :
    settledStatus b drafts = .completed ↔ (countStatus drafts .created : ℤ) = b.targetCount := by
  unfold settledStatus
  split_ifs <;> simp_all

/-- A settle completes a batch exactly when its drafts are all created. -/
theorem settled_iff (h : Fitting gen db) {b : InvoiceBatchRow} (hb : b ∈ db invoiceBatches) :
    settledStatus b (draftsOf b.id db) = .completed ↔ Issued db b := by
  rw [settledStatus_completed]
  constructor
  · intro hcount
    have hsome : ∃ d ∈ db invoiceDrafts, d.batchId = b.id := by
      by_contra hnone
      push Not at hnone
      have hempty : draftsOf b.id db = [] :=
        List.filter_eq_nil_iff.mpr fun d hd hbatch => hnone d hd (beq_iff_eq.mp hbatch)
      have htarget := target_pos h.consistent hb
      simp only [hempty, countStatus, List.filter_nil, List.length_nil] at hcount
      omega
    have hlength : countStatus (draftsOf b.id db) .created = (draftsOf b.id db).length := by
      exact_mod_cast hcount.trans (draftsOf_length h hb hsome).symm
    refine ⟨hsome, fun d hd hbatch => ?_⟩
    have hall := List.length_filter_eq_length_iff.mp hlength
    exact beq_iff_eq.mp (hall d (List.mem_filter.mpr ⟨hd, beq_iff_eq.mpr hbatch⟩))
  · rintro ⟨hsome, hcreated⟩
    rw [← draftsOf_length h hb hsome, countStatus, List.filter_eq_self.mpr fun d hd => ?_]
    obtain ⟨hd, hbatch⟩ := List.mem_filter.mp hd
    exact beq_iff_eq.mpr (hcreated d hd (beq_iff_eq.mp hbatch))

/-! ### Settling -/

theorem StaysCompleted.map {g : InvoiceBatchRow → InvoiceBatchRow}
    (hbatches : db' invoiceBatches = (db invoiceBatches).map g) (hg : ∀ b, (g b).id = b.id)
    (hstatus : ∀ b ∈ db invoiceBatches, b.status = .completed → (g b).status = .completed) :
    StaysCompleted db db' :=
  fun b hb hcompleted => ⟨g b, hbatches ▸ List.mem_map_of_mem hb, hg b, hstatus b hb hcompleted⟩

section
variable {g : InvoiceBatchRow → InvoiceBatchRow}

/-- Trials stay as they are. -/
theorem Tracked.follows (h : Tracked db)
    (hcompleted : ∀ r ∈ db trialRuns,
      (∀ b ∈ db invoiceBatches, b.runId = r.id → (g b).status = .completed) ↔
        ∀ b ∈ db invoiceBatches, b.runId = r.id → b.status = .completed)
    (hdegraded : ∀ b ∈ db invoiceBatches, (g b).status = .degraded → b.status = .degraded) :
    Follows db g fun r => r where
  id _ := rfl
  completed r hr := (h.completed r hr).trans (hcompleted r hr).symm
  degraded r hr b hb hrun hstatus := h.degraded r hr b hb hrun (hdegraded b hb hstatus)
  active := h.active

/-- The trials with a batch that is degraded now are degraded. -/
theorem Tracked.follows_degraded (h : Tracked db) {p : TrialRunRow → Bool}
    (hp : ∀ r, p r = true →
      ∃ b ∈ db invoiceBatches, b.runId = r.id ∧ (g b).status = .degraded)
    (hrest : ∀ r, p r = false → ∀ b ∈ db invoiceBatches, b.runId = r.id → g b = b) :
    Follows db g fun r => if p r then degradedRun r else r where
  id r := by
    split_ifs <;> rfl
  completed r hr := by
    cases hcond : p r with
    | true =>
        obtain ⟨b, hb, hrun, hstatus⟩ := hp r hcond
        refine ⟨fun hcompleted => by simp [degradedRun] at hcompleted, fun hall => ?_⟩
        exact absurd (hstatus.symm.trans (hall b hb hrun)) (by simp)
    | false =>
        rw [if_neg (by simp), h.completed r hr]
        refine forall₂_congr fun b hb => imp_congr_right fun hrun => ?_
        rw [hrest r hcond b hb hrun]
  degraded r hr b hb hrun hstatus := by
    split_ifs with hcond
    · rfl
    · rw [hrest r (by simpa using hcond) b hb hrun] at hstatus
      exact h.degraded r hr b hb hrun hstatus
  active r hr := by
    split_ifs
    · simp [degradedRun]
    · exact h.active r hr

/-- The trial whose batches are all completed now is completed. -/
theorem Tracked.follows_completed (h : Tracked db) {runId : TrialRunId} {now : ℤ}
    (hall : ∀ b ∈ db invoiceBatches, b.runId = runId → (g b).status = .completed)
    (hrest : ∀ b ∈ db invoiceBatches, b.runId ≠ runId → g b = b) :
    Follows db g fun r => if r.id == runId then completedRun now r else r where
  id r := by
    split_ifs <;> rfl
  completed r hr := by
    split_ifs with hid
    · exact ⟨fun _ b hb hrun => hall b hb (hrun.trans (beq_iff_eq.mp hid)), fun _ => rfl⟩
    · rw [h.completed r hr]
      refine forall₂_congr fun b hb => imp_congr_right fun hrun => ?_
      rw [hrest b hb fun heq => hid (beq_iff_eq.mpr (hrun.symm.trans heq))]
  degraded r hr b hb hrun hstatus := by
    split_ifs with hid
    · exact absurd (hstatus.symm.trans (hall b hb (hrun.trans (beq_iff_eq.mp hid)))) (by simp)
    · rw [hrest b hb fun heq => hid (beq_iff_eq.mpr (hrun.symm.trans heq))] at hstatus
      exact h.degraded r hr b hb hrun hstatus
  active r hr := by
    split_ifs
    · simp [completedRun]
    · exact h.active r hr

end

/-- The batches after one of them was settled. -/
def settledBatch (b : InvoiceBatchRow) (status : BatchStatus) (now : ℤ) (b' : InvoiceBatchRow) :
    InvoiceBatchRow := if b'.id == b.id then settledAt status now b' else b'

section
variable {b : InvoiceBatchRow} {status : BatchStatus} {now : ℤ}

theorem settledBatch_keeps : KeepsBatches (settledBatch b status now) := by
  intro b'
  unfold settledBatch
  split_ifs <;> exact ⟨rfl, rfl, rfl⟩

theorem settledBatch_self : (settledBatch b status now b).status = status := by
  simp [settledBatch, settledAt]

theorem settledBatch_other (hc : metadata.Consistent db) (hb : b ∈ db invoiceBatches) :
    ∀ b' ∈ db invoiceBatches, b' ≠ b → settledBatch b status now b' = b' := by
  intro b' hb' hne
  have hid : b'.id ≠ b.id := fun hid => hne ((hc invoiceBatches).eq_of_key hb' hb hid)
  simp [settledBatch, hid]

variable (h : Fitting gen db) (hb : b ∈ db invoiceBatches)
  (hstatus : status = .completed ↔ Issued db b)
include h hb hstatus

theorem settledBatch_issued : ∀ b' ∈ db invoiceBatches,
    (settledBatch b status now b').status = .completed → Issued db b' := by
  intro b' hb' hcompleted
  by_cases hsame : b' = b
  · subst hsame
    exact hstatus.mp (settledBatch_self.symm.trans hcompleted)
  · rw [settledBatch_other h.consistent hb b' hb' hsame] at hcompleted
    exact h.tracked.issued b' hb' hcompleted

theorem settledBatch_completed : ∀ b' ∈ db invoiceBatches, b'.status = .completed →
    (settledBatch b status now b').status = .completed := by
  intro b' hb' hcompleted
  by_cases hsame : b' = b
  · subst hsame
    exact settledBatch_self.trans (hstatus.mpr (h.tracked.issued b' hb' hcompleted))
  · rw [settledBatch_other h.consistent hb b' hb' hsame]
    exact hcompleted

/-- The trials follow the batch that was settled. -/
theorem settledRuns_follows : ∃ f, Follows db (settledBatch b status now) f ∧
    settledRuns b.runId status now ((db invoiceBatches).map (settledBatch b status now))
      (db trialRuns) = (db trialRuns).map f := by
  have hother : ∀ b' ∈ db invoiceBatches, b' ≠ b → settledBatch b status now b' = b' :=
    settledBatch_other h.consistent hb
  have hforeign : ∀ b' ∈ db invoiceBatches, b'.runId ≠ b.runId →
      settledBatch b status now b' = b' :=
    fun b' hb' hrun => hother b' hb' fun hsame => hrun (hsame ▸ rfl)
  unfold settledRuns
  split_ifs with hdegraded hall
  · refine ⟨_, h.tracked.follows_degraded (p := fun r => r.id == b.runId) (fun r hr => ?_)
      fun r hr b' hb' hrun => ?_, rfl⟩
    · exact ⟨b, hb, (beq_iff_eq.mp hr).symm, settledBatch_self.trans hdegraded⟩
    · refine hforeign b' hb' fun heq => ?_
      simp [← heq, hrun] at hr
  · refine ⟨_, h.tracked.follows_completed (fun b' hb' hrun => ?_) hforeign, rfl⟩
    exact hall _ (List.mem_map_of_mem hb') ((settledBatch_keeps b').2.1.trans hrun)
  · refine ⟨fun r => r, h.tracked.follows (fun r hr => ?_) fun b' hb' hstatus' => ?_,
      (List.map_id' _).symm⟩
    · refine ⟨fun hcompleted b' hb' hrun => ?_, fun hcompleted b' hb' hrun => ?_⟩
      · -- this trial has an open batch still, so it is another one
        by_cases hsame : b.runId = r.id
        · refine absurd (fun b'' hb'' hrun'' => ?_) hall
          obtain ⟨b₀, hb₀, rfl⟩ := List.mem_map.mp hb''
          exact hcompleted b₀ hb₀ ((settledBatch_keeps b₀).2.1.symm.trans (hrun''.trans hsame))
        · rw [← hforeign b' hb' fun heq => hsame (heq.symm.trans hrun)]
          exact hcompleted b' hb' hrun
      · exact settledBatch_completed h hb hstatus b' hb' (hcompleted b' hb' hrun)
    · by_cases hsame : b' = b
      · subst hsame
        exact absurd (settledBatch_self.symm.trans hstatus') hdegraded
      · rwa [hother b' hb' hsame] at hstatus'

end

theorem settle_fitting (h : Fitting gen db) (batchId : BatchId) (now : ℤ) :
    Fitting gen ((StoreOp.invoices (.settle batchId now)).apply db).2 ∧
      StaysCompleted db ((StoreOp.invoices (.settle batchId now)).apply db).2 := by
  by_cases hstored : ∃ b ∈ db invoiceBatches, b.id = batchId
  · obtain ⟨b, hb, rfl⟩ := hstored
    have hc := StoreOp.apply_consistent h.consistent (.invoices (.settle b.id now))
    have hstatus := settled_iff h hb
    rw [settle_apply h.consistent hb now] at hc ⊢
    obtain ⟨f, hfollows, hruns⟩ : ∃ f, Follows db (settledBatch b _ now) f ∧ _ :=
      settledRuns_follows h hb hstatus
    exact ⟨h.tracked_map hc rfl rfl rfl hruns settledBatch_keeps hfollows
      (settledBatch_issued h hb hstatus), .map rfl (fun b' => (settledBatch_keeps b').1)
        (settledBatch_completed h hb hstatus)⟩
  · have hnone : ∀ b ∈ db invoiceBatches, b.id ≠ batchId := fun b hb hid => hstored ⟨b, hb, hid⟩
    rw [settle_absent hnone now]
    exact ⟨h, .of_eq rfl⟩

/-! ### Claims -/

theorem claimable_open {claim : BatchClaim} {b : InvoiceBatchRow}
    (h : claimable claim b = true) : b.status ≠ .completed := by
  intro hstatus
  simp [claimable, hstatus] at h

/-- The batches after the exhausted ones were degraded. -/
def degradedBatch (claim : BatchClaim) (b : InvoiceBatchRow) : InvoiceBatchRow :=
  if exhausted claim b then degradedAt claim b else b

theorem degradedBatch_keeps {claim : BatchClaim} : KeepsBatches (degradedBatch claim) := by
  intro b
  unfold degradedBatch
  split_ifs <;> exact ⟨rfl, rfl, rfl⟩

theorem degradedBatch_completed {claim : BatchClaim} {b : InvoiceBatchRow} :
    (degradedBatch claim b).status = .completed ↔ b.status = .completed := by
  unfold degradedBatch
  split_ifs with hexhausted
  · have hopen := claimable_open (Bool.and_eq_true_iff.mp hexhausted).1
    simp [degradedAt, hopen]
  · rfl

theorem degradedRuns_follows (h : Tracked db) (claim : BatchClaim) :
    ∃ f, Follows db (degradedBatch claim) f ∧
      degradedRuns claim (db invoiceBatches) (db trialRuns) = (db trialRuns).map f := by
  unfold degradedRuns
  split_ifs with hany
  · refine ⟨_, h.follows_degraded (fun r hr => ?_) fun r hr b hb hrun => ?_, rfl⟩
    · obtain ⟨b', hb', hcond⟩ := List.any_eq_true.mp hr
      obtain ⟨b, hb, rfl⟩ := List.mem_map.mp hb'
      simp only [Bool.and_eq_true, beq_iff_eq] at hcond
      exact ⟨b, hb, (degradedBatch_keeps b).2.1.symm.trans hcond.2, hcond.1⟩
    · by_contra hchanged
      have hexhausted : exhausted claim b = true := by
        by_contra hnot
        exact hchanged (if_neg hnot)
      have hfound : degradedAt claim b ∈ assignWhere (exhausted claim) (degradedAt claim)
          (db invoiceBatches) := mem_assignWhere.mpr (.inl ⟨b, hb, hexhausted, rfl⟩)
      have hnone := List.any_eq_false.mp hr _ hfound
      simp [degradedAt, hrun] at hnone
  · have hnone : ∀ b ∈ db invoiceBatches, degradedBatch claim b = b := fun b hb =>
      if_neg (List.any_eq_false.mp (by simpa using hany) b hb)
    refine ⟨fun r => r, h.follows (fun r hr => ?_) fun b hb hstatus => ?_, (List.map_id' _).symm⟩
    · exact forall₂_congr fun b hb => imp_congr_right fun _ => degradedBatch_completed
    · rwa [hnone b hb] at hstatus

/-- The batches after one of them was leased. -/
def leasedBatch (claim : BatchClaim) (row b : InvoiceBatchRow) : InvoiceBatchRow :=
  if b.id == row.id then leased claim row b else b

theorem leasedBatch_keeps {claim : BatchClaim} {row : InvoiceBatchRow} :
    KeepsBatches (leasedBatch claim row) := by
  intro b
  unfold leasedBatch
  split_ifs <;> exact ⟨rfl, rfl, rfl⟩

/-- No lease is for a batch that is completed or degraded. -/
theorem leasedBatch_status (hc : metadata.Consistent db) {claim : BatchClaim}
    {row : InvoiceBatchRow} (hrow : row ∈ db invoiceBatches) (hdue : due claim row = true)
    {b : InvoiceBatchRow} (hb : b ∈ db invoiceBatches) :
    ((leasedBatch claim row b).status = .completed ↔ b.status = .completed) ∧
      ((leasedBatch claim row b).status = .degraded → b.status = .degraded) := by
  unfold leasedBatch
  split_ifs with hid
  · obtain rfl := (hc invoiceBatches).eq_of_key hb hrow (beq_iff_eq.mp hid)
    have hopen := claimable_open (Bool.and_eq_true_iff.mp hdue).1
    simp [leased, hopen]
  · exact ⟨.rfl, fun hstatus => hstatus⟩

theorem claim_fitting (h : Fitting gen db) (claim : BatchClaim) :
    Fitting gen ((StoreOp.trials (.claimDueBatch claim)).apply db).2 ∧
      StaysCompleted db ((StoreOp.trials (.claimDueBatch claim)).apply db).2 := by
  have hc := StoreOp.apply_consistent h.consistent (.trials (.claimDueBatch claim))
  rcases claimDueBatch_apply h.consistent claim with hnone | ⟨row, hrow, hdue, hsome⟩
  · rw [hnone] at hc ⊢
    obtain ⟨f, hfollows, hruns⟩ := degradedRuns_follows h.tracked claim
    refine ⟨h.tracked_map hc rfl rfl rfl hruns degradedBatch_keeps hfollows fun b hb hstatus => ?_,
      .map rfl (fun b => (degradedBatch_keeps b).1) fun b _ hstatus => ?_⟩
    · exact h.tracked.issued b hb (degradedBatch_completed.mp hstatus)
    · exact degradedBatch_completed.mpr hstatus
  · rw [hsome] at hc ⊢
    have hstatus := fun b hb => leasedBatch_status h.consistent hrow hdue (b := b) hb
    refine ⟨h.tracked_map hc rfl rfl rfl (List.map_id' _).symm leasedBatch_keeps
      (h.tracked.follows (fun r _ => ?_) fun b hb => (hstatus b hb).2) fun b hb hcompleted => ?_,
        .map rfl (fun b => (leasedBatch_keeps b).1) fun b hb => (hstatus b hb).1.mpr⟩
    · exact forall₂_congr fun b hb => imp_congr_right fun _ => (hstatus b hb).1
    · exact h.tracked.issued b hb ((hstatus b hb).1.mp hcompleted)

/-! ### New trials -/

def startedRun (runId : TrialRunId) (startAt : ℤ) : TrialRunRow where
  id := runId
  status := .active
  startedAt := startAt
  endsAt := startAt + seconds (24 * 60 * 60)
  createdAt := startAt
  completedAt := none
  activeMarker := some 1

theorem create_changes (uuid5 : String → String) (runId : TrialRunId) (command : NewTrial)
    (db : Database Row) :
    Program.Establishes (respond metadata) (create uuid5 runId command) (fun _ db' =>
      db' trialRuns = db trialRuns ++ [startedRun runId command.startAt] ∧
      db' invoiceBatches = db invoiceBatches ++
        command.schedule.map (batchRow uuid5 runId command.startAt)) db := by
  unfold create
  refine establishes_insertRows fun db₁ _ h₁ => establishes_insertRows fun db₂ _ h₂ => ?_
  refine (Program.establishes_done _).mpr ⟨?_, ?_⟩
  · rw [h₂, Database.set_of_ne _ (by decide), h₁, Database.set_self]
    rfl
  · rw [h₂, Database.set_self, h₁, Database.set_of_ne _ (by decide)]

theorem Fitting.started (h : Fitting gen db) (hc : metadata.Consistent db') {run : TrialRunRow}
    {new : List InvoiceBatchRow} (hlength : new.length = 8)
    (hnew : ∀ b ∈ new, b.runId = run.id ∧ b.status = .scheduled)
    (hrun : run.status = .active ∧ run.activeMarker = some 1)
    (hdrafts : db' invoiceDrafts = db invoiceDrafts)
    (howned : db' ownedInvoices = db ownedInvoices)
    (hbatches : db' invoiceBatches = db invoiceBatches ++ new)
    (hruns : db' trialRuns = db trialRuns ++ [run]) : Fitting gen db' := by
  have hfresh : ∀ r ∈ db trialRuns, r.id ≠ run.id := by
    intro r hr hid
    have hdistinct := (hc trialRuns).2
    rw [hruns] at hdistinct
    have hclash := (List.pairwise_append.mp hdistinct).2.2 r hr run (List.mem_singleton.mpr rfl)
    simp [metadata, uniqueConflict, hid] at hclash
  have hfreshBatch : ∀ b ∈ db invoiceBatches, b.runId ≠ run.id := by
    intro b hb hid
    obtain ⟨r, hr, hrid⟩ := h.tracked.run b hb
    exact hfresh r hr (hrid.trans hid)
  have hold : ∀ b ∈ db invoiceBatches, b ∈ db' invoiceBatches :=
    fun b hb => hbatches ▸ List.mem_append.mpr (.inl hb)
  -- the batches of an earlier trial are its batches still
  have hforeign : ∀ r ∈ db trialRuns, ∀ b ∈ db' invoiceBatches, b.runId = r.id →
      b ∈ db invoiceBatches := by
    intro r hr b hb hid
    rw [hbatches] at hb
    rcases List.mem_append.mp hb with hb | hb
    · exact hb
    · exact absurd (hid.symm.trans (hnew b hb).1) (hfresh r hr)
  have hown : ∀ b ∈ db' invoiceBatches, b.runId = run.id → b ∈ new := by
    intro b hb hid
    rw [hbatches] at hb
    rcases List.mem_append.mp hb with hb | hb
    · exact absurd hid (hfreshBatch b hb)
    · exact hb
  refine ⟨hc, h.paired.advanced (h.paired.agreed.of_eq hdrafts howned) (.of_eq hdrafts)
      fun o ho id hdraft => ⟨o, howned ▸ ho, hdraft, rfl⟩, ⟨fun d hd => ?_, fun d hd b hb hid => ?_⟩,
    ⟨fun b hb => ?_, fun r hr => ?_, fun b hb hstatus => ?_, fun r hr => ?_,
      fun r hr b hb hid hstatus => ?_, fun r hr => ?_⟩⟩
  · obtain ⟨b, hb, hrest⟩ := h.placed.placed d (hdrafts ▸ hd)
    exact ⟨b, hold b hb, hrest⟩
  · rw [hdrafts] at hd ⊢
    obtain ⟨b₀, hb₀, hid₀, -⟩ := h.placed.placed d hd
    obtain rfl := (hc invoiceBatches).eq_of_key (hold b₀ hb₀) hb (hid₀.trans hid.symm)
    exact h.placed.whole d hd b₀ hb₀ hid
  · rw [hbatches] at hb
    rw [hruns]
    rcases List.mem_append.mp hb with hb | hb
    · obtain ⟨r, hr, hid⟩ := h.tracked.run b hb
      exact ⟨r, List.mem_append.mpr (.inl hr), hid⟩
    · exact ⟨run, by simp, (hnew b hb).1.symm⟩
  · unfold batchesOf
    rw [hruns] at hr
    rw [hbatches, List.filter_append]
    rcases List.mem_append.mp hr with hr | hr
    · have hnone : new.filter (fun b => b.runId == r.id) = [] :=
        List.filter_eq_nil_iff.mpr fun b hb hid =>
          hfresh r hr ((beq_iff_eq.mp hid).symm.trans (hnew b hb).1)
      rw [hnone, List.append_nil]
      exact h.tracked.eight r hr
    · obtain rfl := List.mem_singleton.mp hr
      have hnone : (db invoiceBatches).filter (fun b : InvoiceBatchRow => b.runId == r.id) = [] :=
        List.filter_eq_nil_iff.mpr fun b hb hid => hfreshBatch b hb (beq_iff_eq.mp hid)
      rw [hnone, List.nil_append, List.filter_eq_self.mpr fun b hb => beq_iff_eq.mpr (hnew b hb).1]
      exact hlength
  · rw [hbatches] at hb
    unfold Issued
    rw [hdrafts]
    rcases List.mem_append.mp hb with hb | hb
    · exact h.tracked.issued b hb hstatus
    · simp [(hnew b hb).2] at hstatus
  · rw [hruns] at hr
    rcases List.mem_append.mp hr with hr | hr
    · rw [h.tracked.completed r hr]
      exact ⟨fun hall b hb hid => hall b (hforeign r hr b hb hid) hid,
        fun hall b hb hid => hall b (hold b hb) hid⟩
    · obtain rfl := List.mem_singleton.mp hr
      obtain ⟨b, hb⟩ := List.length_pos_iff_exists_mem.mp (by omega : 0 < new.length)
      refine ⟨fun hstatus => by simp [hrun.1] at hstatus, fun hall => ?_⟩
      have hstatus := hall b (hbatches ▸ List.mem_append.mpr (.inr hb)) (hnew b hb).1
      simp [(hnew b hb).2] at hstatus
  · rw [hruns] at hr
    rcases List.mem_append.mp hr with hr | hr
    · exact h.tracked.degraded r hr b (hforeign r hr b hb hid) hid hstatus
    · obtain rfl := List.mem_singleton.mp hr
      simp [(hnew b (hown b hb hid)).2] at hstatus
  · rw [hruns] at hr
    rcases List.mem_append.mp hr with hr | hr
    · exact h.tracked.active r hr
    · obtain rfl := List.mem_singleton.mp hr
      simp [hrun.1, hrun.2]

theorem create_fitting (h : Fitting gen db) (uuid5 : String → String) (runId : TrialRunId)
    {command : NewTrial} (hlength : command.schedule.length = 8) :
    Fitting gen ((StoreOp.trials (.create uuid5 runId command)).apply db).2 ∧
      StaysCompleted db ((StoreOp.trials (.create uuid5 runId command)).apply db).2 := by
  have hc := StoreOp.apply_consistent h.consistent (.trials (.create uuid5 runId command))
  have hdrafts := StoreOp.apply_frame (.trials (.create uuid5 runId command)) (u := invoiceDrafts)
    (by simp [StoreOp.tables, TrialStoreOp.tables]) db
  have howned := StoreOp.apply_frame (.trials (.create uuid5 runId command)) (u := ownedInvoices)
    (by simp [StoreOp.tables, TrialStoreOp.tables]) db
  rcases Program.atomically_cases (respond metadata) (create uuid5 runId command) db with
    ⟨run, db', hrun, hdone⟩ | ⟨e, hfailed⟩
  · have hsame : (StoreOp.trials (.create uuid5 runId command)).apply db = (.ok run, db') := hdone
    obtain ⟨hruns, hbatches⟩ := create_changes uuid5 runId command db run db' hrun
    rw [hsame] at hc hdrafts howned ⊢
    refine ⟨h.started hc (by simpa using hlength) (fun b hb => ?_) ⟨rfl, rfl⟩ hdrafts howned
      hbatches hruns, fun b hb hcompleted => ?_⟩
    · obtain ⟨slot, -, rfl⟩ := List.mem_map.mp hb
      exact ⟨rfl, rfl⟩
    · have hstored : b ∈ db' invoiceBatches := hbatches ▸ List.mem_append.mpr (.inl hb)
      exact ⟨b, hstored, rfl, hcompleted⟩
  · have hsame : (StoreOp.trials (.create uuid5 runId command)).apply db = (.error e, db) := hfailed
    rw [hsame]
    exact ⟨h, .of_eq rfl⟩

end

end StarkbankTrial.TrialInvariants
