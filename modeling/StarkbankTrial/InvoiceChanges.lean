import StarkbankTrial.JobChanges

/-!
# What transactions do to drafts and owned invoices

One statement for the operations of the invoice store and one for the recording of an
event. Later results about drafts and their invoices use these and never unfold a
transaction again.
-/
namespace StarkbankTrial.InvoiceChanges
open Domain InteractivePrograms RelationalTables Transaction DatabaseSchema
open DatabaseSchema.Table
open EventRecording InvoiceRecording StoreOperations JobChanges
open Program hiding atomically

/-! ### The invoice store -/

/-- The rows that a save adds: the drafts whose ids the batch does not have yet. -/
def newDrafts (batchId : BatchId) (drafts : List InvoiceDraft) (rows : List InvoiceDraftRow) :
    List InvoiceDraftRow :=
  (drafts.filter fun draft =>
    !(rows.filter fun d => d.batchId == batchId).any fun d => d.id == draft.id).map draftRow

def smokeOwner (draft : InvoiceDraft) (atTime : ℤ) : OwnedInvoiceRow where
  tag := draft.tag
  providerInvoiceId := none
  source := "smoke"
  draftId := none
  createdAt := atTime
  updatedAt := atTime

/-- The transition that an operation makes. -/
def transitionOf : InvoiceStoreOp → Option DraftTransition
  | .created result => some (.created result)
  | .unknownResult result => some (.unknownResult result)
  | .failed result => some (.failed result)
  | .reconcile result _ => result.providerInvoice.map fun invoice =>
      .created ⟨result.draft.id, invoice.id, result.atTime⟩
  | _ => none

/-- The effects of an operation of the invoice store on both tables. -/
inductive InvoicesChanged (op : InvoiceStoreOp) (drafts : List InvoiceDraftRow)
    (owned : List OwnedInvoiceRow) : List InvoiceDraftRow → List OwnedInvoiceRow → Prop
  | same : InvoicesChanged op drafts owned drafts owned
  | saved {batchId : BatchId} {ds : List InvoiceDraft} : op = .save batchId ds →
      InvoicesChanged op drafts owned (drafts ++ newDrafts batchId ds drafts)
        (owned ++ (newDrafts batchId ds drafts).map trialOwner)
  | registered {draft : InvoiceDraft} {atTime : ℤ} : op = .registerSmoke draft atTime →
      InvoicesChanged op drafts owned drafts (owned ++ [smokeOwner draft atTime])
  | bound {tag : String} {id : InvoiceId} {atTime : ℤ} {assign : OwnedInvoiceRow → OwnedInvoiceRow} :
      op = .bindProviderInvoice tag id atTime →
      (∀ o, (assign o).tag = o.tag ∧ (assign o).draftId = o.draftId ∧
        ((assign o).providerInvoiceId = some id ∨
          (assign o).providerInvoiceId = o.providerInvoiceId)) →
      InvoicesChanged op drafts owned drafts (assignWhere (fun o => o.tag == tag) assign owned)
  | transitioned {t : DraftTransition} : transitionOf op = some t →
      InvoicesChanged op drafts owned
        (assignWhere (fun d => d.id == t.draftId) t.apply drafts)
        (assignWhere (fun o => o.draftId == some t.draftId) t.applyOwner owned)
  | retried {result : DraftFailure} {delay : ℤ} {maxAttempts : ℕ} {draft : InvoiceDraftRow} :
      op = .retry result delay maxAttempts → draft ∈ drafts → draft.id = result.draftId →
      InvoicesChanged op drafts owned (assignWhere (fun d => d.id == result.draftId)
        (retryDraft result delay maxAttempts draft) drafts) owned
  | missed {draft : InvoiceDraft} {atTime : ℤ} {limits : ReconcileLimits}
      {stored : InvoiceDraftRow} :
      op = .reconcile ⟨draft, none, atTime⟩ limits → stored ∈ drafts → stored.id = draft.id →
      InvoicesChanged op drafts owned (assignWhere (fun d => d.id == draft.id)
        (missDraft limits draft atTime stored) drafts) owned

/-- The same, between two databases. -/
abbrev InvoicesChangedIn (op : InvoiceStoreOp) (db db' : Database Row) : Prop :=
  InvoicesChanged op (db invoiceDrafts) (db ownedInvoices) (db' invoiceDrafts)
    (db' ownedInvoices)

theorem set_drafts_owned {db : Database Row} {rows : List InvoiceDraftRow} :
    (db.set invoiceDrafts rows) ownedInvoices = db ownedInvoices :=
  Database.set_of_ne _ (by decide) _

theorem set_owned_drafts {db : Database Row} {rows : List OwnedInvoiceRow} :
    (db.set ownedInvoices rows) invoiceDrafts = db invoiceDrafts :=
  Database.set_of_ne _ (by decide) _

theorem transition_changes (t : DraftTransition) (db : Database Row) :
    Establishes (respond metadata) (transition t) (fun _ db' =>
      db' invoiceDrafts = assignWhere (fun d : InvoiceDraftRow => d.id == t.draftId) t.apply
        (db invoiceDrafts) ∧
      db' ownedInvoices = assignWhere (fun o : OwnedInvoiceRow => o.draftId == some t.draftId)
        t.applyOwner (db ownedInvoices)) db := by
  unfold transition
  refine establishes_updateRows fun _ => establishes_updateRows fun _ => ?_
  refine (establishes_done _).mpr ⟨?_, ?_⟩
  · rw [set_owned_drafts, Database.set_self]
  · rw [Database.set_self, set_drafts_owned]

theorem transitionOf_changes {op : InvoiceStoreOp} {t : DraftTransition} {db : Database Row}
    (hop : transitionOf op = some t) {p : Txn Unit} (hp : p = transition t) :
    Establishes (respond metadata) p (fun _ db' => InvoicesChangedIn op db db') db := by
  subst hp
  refine (transition_changes t db).mono fun _ db' h => ?_
  unfold InvoicesChangedIn
  rw [h.1, h.2]
  exact .transitioned hop

theorem save_changes (batchId : BatchId) (ds : List InvoiceDraft) (db : Database Row) :
    Establishes (respond metadata) (save batchId ds)
      (fun _ db' => InvoicesChangedIn (.save batchId ds) db db') db := by
  unfold save
  simp only [select_bind, establishes_call, respond_select]
  refine establishes_ite _ (fun _ => ?_) fun _ => ?_
  · exact (establishes_done _).mpr InvoicesChanged.same
  · refine establishes_insertRows fun db₁ _ h₁ => ?_
    rw [← bind_pure (insertRows ownedInvoices _)]
    refine establishes_insertRows fun db₂ _ h₂ => (establishes_done _).mpr ?_
    unfold InvoicesChangedIn
    rw [h₂, h₁, set_owned_drafts, Database.set_self, Database.set_self, set_drafts_owned]
    exact .saved rfl

theorem retry_changes (result : DraftFailure) (delay : ℤ) (maxAttempts : ℕ)
    (db : Database Row) :
    Establishes (respond metadata) (InvoiceRecording.retry result delay maxAttempts)
      (fun _ db' => InvoicesChangedIn (.retry result delay maxAttempts) db db') db := by
  unfold InvoiceRecording.retry
  simp only [select_bind, establishes_call, respond_select]
  refine establishes_one fun draft hdraft => establishes_updateRows fun _ => ?_
  have hmem := List.mem_filter.mp (List.mem_of_head? hdraft)
  refine (establishes_done _).mpr ?_
  unfold InvoicesChangedIn
  rw [Database.set_self, set_drafts_owned]
  exact .retried rfl hmem.1 (beq_iff_eq.mp hmem.2)

theorem reconcileNotFound_changes (limits : ReconcileLimits) (draft : InvoiceDraft) (atTime : ℤ)
    (db : Database Row) :
    Establishes (respond metadata) (reconcileNotFound limits draft atTime)
      (fun _ db' => InvoicesChangedIn (.reconcile ⟨draft, none, atTime⟩ limits) db db') db := by
  unfold reconcileNotFound
  simp only [select_bind, establishes_call, respond_select]
  refine establishes_one fun stored hstored => establishes_updateRows fun _ => ?_
  have hmem := List.mem_filter.mp (List.mem_of_head? hstored)
  refine (establishes_done _).mpr ?_
  unfold InvoicesChangedIn
  rw [Database.set_self, set_drafts_owned]
  exact .missed rfl hmem.1 (beq_iff_eq.mp hmem.2)

theorem registerSmoke_changes (draft : InvoiceDraft) (atTime : ℤ) (db : Database Row) :
    Establishes (respond metadata) (registerSmoke draft atTime)
      (fun _ db' => InvoicesChangedIn (.registerSmoke draft atTime) db db') db := by
  unfold registerSmoke
  simp only [insertIfAbsent_bind, establishes_call, respond]
  split_ifs with hpresent haccepts
  · exact (establishes_done _).mpr InvoicesChanged.same
  · refine (establishes_done _).mpr ?_
    change InvoicesChanged _ _ _
      ((db.set ownedInvoices (db ownedInvoices ++ [smokeOwner draft atTime])) invoiceDrafts)
      ((db.set ownedInvoices (db ownedInvoices ++ [smokeOwner draft atTime])) ownedInvoices)
    rw [Database.set_self, set_owned_drafts]
    exact .registered rfl
  · exact (establishes_raise _).mpr trivial

theorem bindProviderInvoice_changes (tag : String) (id : InvoiceId) (atTime : ℤ)
    (db : Database Row) :
    Establishes (respond metadata) (bindProviderInvoice tag id atTime)
      (fun _ db' => InvoicesChangedIn (.bindProviderInvoice tag id atTime) db db') db := by
  unfold bindProviderInvoice
  simp only [select_bind, establishes_call, respond_select]
  split
  · exact (establishes_raise _).mpr trivial
  · split
    · simp only [update_bind]
      refine establishes_update (fun _ => (establishes_done _).mpr ?_)
        fun _ => (establishes_raise _).mpr trivial
      unfold InvoicesChangedIn
      rw [Database.set_self, set_owned_drafts]
      exact .bound rfl fun o => ⟨rfl, rfl, .inl rfl⟩
    · split_ifs
      · refine establishes_updateRows fun _ => (establishes_done _).mpr ?_
        unfold InvoicesChangedIn
        rw [Database.set_self, set_owned_drafts]
        exact .bound rfl fun o => ⟨rfl, rfl, .inr rfl⟩
      · exact (establishes_raise _).mpr trivial

theorem invoices_changes (op : InvoiceStoreOp) (db : Database Row) :
    InvoicesChangedIn op db ((StoreOp.invoices op).apply db).2 := by
  have hframe : invoiceDrafts ∉ InvoiceStoreOp.tables op → ownedInvoices ∉ InvoiceStoreOp.tables op →
      InvoicesChangedIn op db ((StoreOp.invoices op).apply db).2 := by
    intro hdrafts howned
    unfold InvoicesChangedIn
    rw [StoreOp.apply_frame (.invoices op) hdrafts, StoreOp.apply_frame (.invoices op) howned]
    exact .same
  cases op with
  | save batchId ds => exact (save_changes batchId ds db).atomically .same
  | registerSmoke draft atTime => exact (registerSmoke_changes draft atTime db).atomically .same
  | bindProviderInvoice tag id atTime =>
      exact (bindProviderInvoice_changes tag id atTime db).atomically .same
  | pending batchId now => exact hframe (by simp [InvoiceStoreOp.tables]) (by simp [InvoiceStoreOp.tables])
  | unknown now limit => exact hframe (by simp [InvoiceStoreOp.tables]) (by simp [InvoiceStoreOp.tables])
  | created result => exact (transitionOf_changes rfl rfl).atomically .same
  | unknownResult result => exact (transitionOf_changes rfl rfl).atomically .same
  | failed result => exact (transitionOf_changes rfl rfl).atomically .same
  | retry result delay maxAttempts =>
      exact (retry_changes result delay maxAttempts db).atomically .same
  | reconcile result limits =>
      obtain ⟨draft, invoice, atTime⟩ := result
      cases invoice with
      | none => exact (reconcileNotFound_changes limits draft atTime db).atomically .same
      | some invoice => exact (transitionOf_changes rfl rfl).atomically .same
  | settle batchId now => exact hframe (by simp [InvoiceStoreOp.tables]) (by simp [InvoiceStoreOp.tables])

/-- The drafts that a query returns are rows. -/
theorem pending_mem {batchId : BatchId} {now : ℤ} {db : Database Row} {ds : List InvoiceDraft}
    (h : ((StoreOp.invoices (.pending batchId now)).apply db).1 = .ok ds) {d : InvoiceDraft}
    (hd : d ∈ ds) : ∃ row ∈ db invoiceDrafts, toDraft row = d ∧ row.status = .pending := by
  obtain rfl := Except.ok.inj h
  obtain ⟨row, hrow, rfl⟩ := List.mem_map.mp hd
  obtain ⟨hrow, hc⟩ := List.mem_filter.mp ((List.mem_insertionSort _).mp hrow)
  simp only [Bool.and_eq_true, beq_iff_eq] at hc
  exact ⟨row, hrow, rfl, hc.1.2⟩

theorem unknown_mem {now : ℤ} {limit : ℕ} {db : Database Row} {ds : List InvoiceDraft}
    (h : ((StoreOp.invoices (.unknown now limit)).apply db).1 = .ok ds) {d : InvoiceDraft}
    (hd : d ∈ ds) : ∃ row ∈ db invoiceDrafts, toDraft row = d ∧ row.status = .unknown := by
  obtain rfl := Except.ok.inj h
  obtain ⟨row, hrow, rfl⟩ := List.mem_map.mp hd
  obtain ⟨hrow, hc⟩ := List.mem_filter.mp
    ((List.mem_insertionSort _).mp (List.mem_of_mem_take hrow))
  simp only [Bool.and_eq_true, beq_iff_eq] at hc
  exact ⟨row, hrow, rfl, hc.1⟩

theorem pending_nodup {batchId : BatchId} {now : ℤ} {db : Database Row} {ds : List InvoiceDraft}
    (hc : metadata.Consistent db)
    (h : ((StoreOp.invoices (.pending batchId now)).apply db).1 = .ok ds) :
    (ds.map InvoiceDraft.id).Nodup := by
  obtain rfl := Except.ok.inj h
  have hrows : ((db invoiceDrafts).filter fun d : InvoiceDraftRow =>
      d.batchId == batchId && d.status == .pending && d.nextAttemptAt ≤ now).Pairwise
        fun a b => a.id ≠ b.id := by
    refine ((hc invoiceDrafts).2.sublist List.filter_sublist).imp fun {a b} hab hid => ?_
    simp [metadata, uniqueConflict, hid] at hab
  rw [List.map_map]
  refine List.pairwise_map.mpr ?_
  exact (List.Perm.pairwise_iff (fun {a b} hab => hab.symm)
    (List.perm_insertionSort _ _)).mpr hrows

/-! ### Transactions that cannot fail -/

/-- An assignment to one draft that changes its invoice to one that no other draft has. -/
theorem drafts_valid {drafts : List InvoiceDraftRow} (h : metadata.Valid invoiceDrafts drafts)
    {id : DraftId} {assign : InvoiceDraftRow → InvoiceDraftRow}
    (hkeeps : ∀ d, (assign d).id = d.id ∧ (assign d).tag = d.tag ∧
      (assign d).batchId = d.batchId ∧ (assign d).ordinal = d.ordinal ∧
      (assign d).amount = d.amount)
    (hfree : ∀ d ∈ drafts, d.id = id → ∀ d' ∈ drafts, d'.id ≠ id →
      sameNonNull (assign d).providerInvoiceId d'.providerInvoiceId = false) :
    metadata.Valid invoiceDrafts
      (assignWhere (fun d : InvoiceDraftRow => d.id == id) assign drafts) := by
  refine h.assignWhere (fun d hd _ => ?_) (fun a ha b hb hca hab hcb => ?_)
    fun a ha b hb hca hcb hab => ?_
  · have hcheck : 0 < d.amount := by simpa [metadata, rowCheck] using h.1 d hd
    simpa [metadata, rowCheck, (hkeeps d).2.2.2.2] using hcheck
  · obtain ⟨hid, htag, hbatch, hordinal, -⟩ := hkeeps a
    have hne : b.id ≠ id := by simpa using hcb
    simp only [metadata, uniqueConflict, Bool.or_eq_false_iff] at hab ⊢
    rw [hid, htag, hbatch, hordinal]
    exact ⟨hab.1, hfree a ha (beq_iff_eq.mp hca) b hb hne⟩
  · have hsame : a.id = b.id := (beq_iff_eq.mp hca).trans (beq_iff_eq.mp hcb).symm
    simp [metadata, uniqueConflict, hsame] at hab

theorem owned_valid {owned : List OwnedInvoiceRow} (h : metadata.Valid ownedInvoices owned)
    {id : DraftId} {t : DraftTransition}
    (hfree : ∀ o ∈ owned, o.draftId ≠ some id →
      sameNonNull t.providerInvoiceId o.providerInvoiceId = false) :
    metadata.Valid ownedInvoices
      (assignWhere (fun o : OwnedInvoiceRow => o.draftId == some id) t.applyOwner owned) := by
  refine h.assignWhere (fun o ho _ => h.1 o ho) (fun a ha b hb hca hab hcb => ?_)
    fun a ha b hb hca hcb hab => ?_
  · have hne : b.draftId ≠ some id := by simpa using hcb
    simp only [metadata, uniqueConflict, Bool.or_eq_false_iff] at hab ⊢
    exact ⟨⟨hab.1.1, hfree b hb hne⟩, hab.2⟩
  · have hshared : sameNonNull a.draftId b.draftId = true :=
      sameNonNull_iff.mpr ⟨id, beq_iff_eq.mp hca, beq_iff_eq.mp hcb⟩
    simp [metadata, uniqueConflict, hshared] at hab

/-- An update that keeps the constraints goes on. -/
theorem run_updateRows {A : Type} {t : Table} {condition : Row t → Bool} {assign : Row t → Row t}
    {f : ℕ → Txn A} {db : Database Row}
    (h : metadata.Valid t (assignWhere condition assign (db t))) :
    (updateRows t condition assign >>= f).run (respond metadata) db =
      (f ((db t).filter condition).length).run (respond metadata)
        (db.set t (assignWhere condition assign (db t))) := by
  simp only [updateRows, Transaction.update_bind, Program.call_bind, run_call, respond, h,
    if_true, Program.done_bind]

theorem atomically_of_run {A : Type} {p : Txn A} {db db' : Database Row} {a : A}
    (h : p.run (respond metadata) db = (.ok a, db')) : atomically metadata p db = (.ok a, db') := by
  simp only [atomically, Program.atomically, h]

/-- A transition succeeds when no other row has its invoice. -/
theorem transition_ok {db : Database Row} (hc : metadata.Consistent db) {t : DraftTransition}
    (hdrafts : ∀ d ∈ db invoiceDrafts, d.id ≠ t.draftId →
      sameNonNull t.providerInvoiceId d.providerInvoiceId = false)
    (howned : ∀ o ∈ db ownedInvoices, o.draftId ≠ some t.draftId →
      sameNonNull t.providerInvoiceId o.providerInvoiceId = false) :
    ∃ db', atomically metadata (transition t) db = (.ok (), db') ∧
      db' invoiceDrafts = assignWhere (fun d : InvoiceDraftRow => d.id == t.draftId) t.apply
        (db invoiceDrafts) := by
  have hvalid : metadata.Valid invoiceDrafts
      (assignWhere (fun d : InvoiceDraftRow => d.id == t.draftId) t.apply (db invoiceDrafts)) :=
    drafts_valid (hc invoiceDrafts) (fun d => ⟨rfl, rfl, rfl, rfl, rfl⟩)
      fun _ _ _ d hd hne => hdrafts d hd hne
  have hvalid' : metadata.Valid ownedInvoices (assignWhere
      (fun o : OwnedInvoiceRow => o.draftId == some t.draftId) t.applyOwner
      ((db.set invoiceDrafts (assignWhere (fun d : InvoiceDraftRow => d.id == t.draftId) t.apply
        (db invoiceDrafts))) ownedInvoices)) := by
    rw [set_drafts_owned]
    exact owned_valid (hc ownedInvoices) howned
  have hrun : ∃ db', (transition t).run (respond metadata) db = (.ok (), db') ∧
      db' invoiceDrafts = assignWhere (fun d : InvoiceDraftRow => d.id == t.draftId) t.apply
        (db invoiceDrafts) := by
    unfold transition
    rw [run_updateRows hvalid, run_updateRows hvalid']
    exact ⟨_, rfl, by rw [set_owned_drafts, Database.set_self]⟩
  obtain ⟨db', hrun, hdb'⟩ := hrun
  exact ⟨db', atomically_of_run hrun, hdb'⟩

/-- A retry of a stored draft succeeds. -/
theorem retry_ok {db : Database Row} (hc : metadata.Consistent db) (result : DraftFailure)
    (delay : ℤ) (maxAttempts : ℕ) {d : InvoiceDraftRow} (hd : d ∈ db invoiceDrafts)
    (hid : d.id = result.draftId) :
    ∃ b db', atomically metadata (retry result delay maxAttempts) db = (.ok b, db') ∧
      db' invoiceDrafts = assignWhere (fun d : InvoiceDraftRow => d.id == result.draftId)
        (retryDraft result delay maxAttempts d) (db invoiceDrafts) := by
  have hfilter : (db invoiceDrafts).filter (fun d : InvoiceDraftRow => d.id == result.draftId) =
      [d] := by
    refine (hc invoiceDrafts).filter_eq_singleton (fun a b ha hb => ?_) hd (beq_iff_eq.mpr hid)
    exact metadata.clash_of_key _ a b ((beq_iff_eq.mp ha).trans (beq_iff_eq.mp hb).symm)
  have hvalid : metadata.Valid invoiceDrafts
      (assignWhere (fun d : InvoiceDraftRow => d.id == result.draftId)
        (retryDraft result delay maxAttempts d) (db invoiceDrafts)) :=
    drafts_valid (hc invoiceDrafts) (fun d => ⟨rfl, rfl, rfl, rfl, rfl⟩) fun _ _ _ _ _ _ => rfl
  have hrun : ∃ b db', (retry result delay maxAttempts).run (respond metadata) db = (.ok b, db') ∧
      db' invoiceDrafts = assignWhere (fun d : InvoiceDraftRow => d.id == result.draftId)
        (retryDraft result delay maxAttempts d) (db invoiceDrafts) := by
    unfold retry
    simp only [select_bind, run_call, respond, hfilter, one, Program.done_bind]
    rw [run_updateRows hvalid]
    exact ⟨_, _, rfl, by rw [Database.set_self]⟩
  obtain ⟨b, db', hrun, hdb'⟩ := hrun
  exact ⟨b, db', atomically_of_run hrun, hdb'⟩

/-- A lookup that found nothing is recorded of a stored draft. -/
theorem miss_apply {db : Database Row} (hc : metadata.Consistent db) (limits : ReconcileLimits)
    (time : ℤ) {d : InvoiceDraftRow} (hd : d ∈ db invoiceDrafts) {draft : InvoiceDraft}
    (hid : draft.id = d.id) :
    (StoreOp.invoices (.reconcile ⟨draft, none, time⟩ limits)).apply db = (.ok (),
      db.set invoiceDrafts (assignWhere (fun d' : InvoiceDraftRow => d'.id == draft.id)
        (missDraft limits draft time d) (db invoiceDrafts))) := by
  have hone : (db invoiceDrafts).filter (fun d' : InvoiceDraftRow => d'.id == draft.id) = [d] := by
    refine (hc invoiceDrafts).filter_eq_singleton (fun a a' ha ha' => ?_) hd
      (beq_iff_eq.mpr hid.symm)
    exact metadata.clash_of_key _ a a' ((beq_iff_eq.mp ha).trans (beq_iff_eq.mp ha').symm)
  have hvalid : metadata.Valid invoiceDrafts (assignWhere
      (fun d' : InvoiceDraftRow => d'.id == draft.id) (missDraft limits draft time d)
      (db invoiceDrafts)) := by
    refine drafts_valid (hc invoiceDrafts) (fun d => ⟨rfl, rfl, rfl, rfl, rfl⟩)
      fun a ha hida b hb hne => ?_
    rw [Bool.eq_false_iff]
    intro hshared
    have hsame : a = b := by
      refine (hc invoiceDrafts).eq_of_clash ha hb ?_
      have hshared : sameNonNull a.providerInvoiceId b.providerInvoiceId = true := hshared
      simp [metadata, uniqueConflict, hshared]
    exact hne (hsame ▸ hida)
  refine atomically_of_run ?_
  change (reconcileNotFound limits draft time).run (respond metadata) db = _
  have hfirst : respond metadata (.select invoiceDrafts
      fun d' : InvoiceDraftRow => d'.id == draft.id) db = ([d], db) := by rw [respond_select, hone]
  unfold reconcileNotFound
  simp only [select_bind, run_call, hfirst, one, Program.done_bind]
  exact run_updateRows hvalid

/-! ### The recording of an event -/

/-- How the ownership check finds a row for the event. -/
inductive Owns (event : CreditedInvoiceEvent) (o : OwnedInvoiceRow) : Prop
  | byId : o.providerInvoiceId = some event.invoiceId → Owns event o
  | byTag : o.tag ∈ event.tags → o.providerInvoiceId = none → Owns event o

/-- The owner is bound to the invoice of the event. -/
def boundOwners (o : OwnedInvoiceRow) (event : CreditedInvoiceEvent) (receivedAt : ℤ)
    (owned : List OwnedInvoiceRow) : List OwnedInvoiceRow :=
  assignWhere (fun r => r.tag == o.tag && r.providerInvoiceId == none)
    (fun r => { r with providerInvoiceId := some event.invoiceId, updatedAt := receivedAt }) owned

/-- The draft of the owner becomes created, unless it has another invoice. -/
def createdDrafts (o : OwnedInvoiceRow) (event : CreditedInvoiceEvent) (receivedAt : ℤ)
    (drafts : List InvoiceDraftRow) : List InvoiceDraftRow :=
  match o.draftId with
  | none => drafts
  | some draftId =>
      assignWhere (fun d => d.id == draftId &&
          (d.providerInvoiceId == none || d.providerInvoiceId == some event.invoiceId))
        (fun d => { d with
          providerInvoiceId := some event.invoiceId
          status := .created
          updatedAt := receivedAt }) drafts

/-- What the recording of an event does to drafts, owners and the invoices with jobs. -/
inductive Recorded (r : EventRecord) (db db' : Database Row) : Prop
  | untouched : db' invoiceDrafts = db invoiceDrafts → db' ownedInvoices = db ownedInvoices →
      (∀ j' ∈ db' transferJobs, ∃ j ∈ db transferJobs, SameTransfer j j') → Recorded r db db'
  | owned {event : CreditedInvoiceEvent} {o : OwnedInvoiceRow} : r.event = .credited event →
      o ∈ db ownedInvoices → Owns event o →
      db' invoiceDrafts = createdDrafts o event r.receivedAt (db invoiceDrafts) →
      db' ownedInvoices = boundOwners o event r.receivedAt (db ownedInvoices) →
      (∀ j' ∈ db' transferJobs, (∃ j ∈ db transferJobs, SameTransfer j j') ∨
        j'.invoiceId = event.invoiceId) → Recorded r db db'

theorem boundOwners_of_bound {owned : List OwnedInvoiceRow}
    (hvalid : metadata.Valid ownedInvoices owned) {o : OwnedInvoiceRow} (ho : o ∈ owned)
    (hbound : o.providerInvoiceId ≠ none) (event : CreditedInvoiceEvent) (receivedAt : ℤ) :
    boundOwners o event receivedAt owned = owned := by
  refine assignWhere_none fun r hr => ?_
  rw [Bool.eq_false_iff]
  intro hc
  simp only [Bool.and_eq_true, beq_iff_eq] at hc
  obtain rfl := hvalid.eq_of_key hr ho hc.1
  exact hbound hc.2

/-- The owner that the check returns, with the binding that it made. -/
theorem findOwner_establishes (event : CreditedInvoiceEvent) (receivedAt : ℤ)
    {db : Database Row} (hvalid : metadata.Valid ownedInvoices (db ownedInvoices)) :
    Establishes (respond metadata) (findOwner event receivedAt) (fun owner db' =>
      match owner with
      | none => db' ownedInvoices = db ownedInvoices
      | some o => o ∈ db ownedInvoices ∧ Owns event o ∧
          db' ownedInvoices = boundOwners o event receivedAt (db ownedInvoices)) db := by
  unfold findOwner
  simp only [select_bind, establishes_call, respond_select]
  split
  · unfold ownerByTag
    simp only
    split
    · exact (establishes_done _).mpr rfl
    · simp only [select_bind, establishes_call, respond_select]
      split
      · next o hfound =>
          have ho : o ∈ (db ownedInvoices).filter
              fun r : OwnedInvoiceRow => event.tags.eraseDups.contains r.tag :=
            List.mem_of_mem_take (hfound ▸ List.mem_singleton.mpr rfl)
          obtain ⟨ho, htag⟩ := List.mem_filter.mp ho
          have htag' : o.tag ∈ event.tags := by simpa using htag
          refine establishes_ite _ (fun _ => (establishes_done _).mpr rfl) fun hfree => ?_
          simp only [bindOwner, update_bind]
          refine establishes_update (fun _ => (establishes_done _).mpr ?_)
            fun _ => (establishes_done _).mpr rfl
          rw [Database.set_self]
          refine ⟨ho, ?_, rfl⟩
          cases hid : o.providerInvoiceId with
          | none => exact .byTag htag' hid
          | some id => exact .byId (by simpa [hid] using hfree)
      · exact (establishes_done _).mpr rfl
  · next o rest howners =>
      have ho : o ∈ (db ownedInvoices).filter
          fun r : OwnedInvoiceRow => r.providerInvoiceId == some event.invoiceId :=
        howners ▸ List.mem_cons_self
      obtain ⟨ho, hid⟩ := List.mem_filter.mp ho
      have hid' : o.providerInvoiceId = some event.invoiceId := beq_iff_eq.mp hid
      have hsame : db ownedInvoices = boundOwners o event receivedAt (db ownedInvoices) :=
        (boundOwners_of_bound hvalid ho (by simp [hid']) event receivedAt).symm
      unfold confirmOwner
      split
      · exact (establishes_done _).mpr ⟨ho, .byId hid', hsame⟩
      · simp only [select_bind, establishes_call, respond_select]
        exact establishes_ite _ (fun _ => (establishes_done _).mpr rfl)
          fun _ => (establishes_done _).mpr ⟨ho, .byId hid', hsame⟩

/-- What the event does to the drafts and owners, and whether it is owned. -/
inductive Ownership (event : CreditedInvoiceEvent) (receivedAt : ℤ) (db db' : Database Row) :
    Bool → Prop
  | unowned : db' invoiceDrafts = db invoiceDrafts → db' ownedInvoices = db ownedInvoices →
      Ownership event receivedAt db db' false
  | owned {o : OwnedInvoiceRow} : o ∈ db ownedInvoices → Owns event o →
      db' invoiceDrafts = createdDrafts o event receivedAt (db invoiceDrafts) →
      db' ownedInvoices = boundOwners o event receivedAt (db ownedInvoices) →
      Ownership event receivedAt db db' true

theorem createOwnedDraft_establishes (o : OwnedInvoiceRow) (event : CreditedInvoiceEvent)
    (receivedAt : ℤ) (db : Database Row) :
    Establishes (respond metadata) (createOwnedDraft o event receivedAt) (fun _ db' =>
      db' invoiceDrafts = createdDrafts o event receivedAt (db invoiceDrafts) ∧
        db' ownedInvoices = db ownedInvoices) db := by
  unfold createOwnedDraft createdDrafts
  cases o.draftId with
  | none => exact (establishes_done _).mpr ⟨rfl, rfl⟩
  | some draftId =>
      refine establishes_updateRows fun _ => (establishes_done _).mpr ⟨?_, set_drafts_owned⟩
      rw [Database.set_self]

theorem ownsInvoice_establishes (event : CreditedInvoiceEvent) (receivedAt : ℤ)
    {db : Database Row} (hvalid : metadata.Valid ownedInvoices (db ownedInvoices)) :
    Establishes (respond metadata) (ownsInvoice event receivedAt)
      (fun owned db' => Ownership event receivedAt db db' owned) db := by
  have hdrafts : Establishes (respond metadata) (findOwner event receivedAt)
      (fun _ db' => db' invoiceDrafts = db invoiceDrafts) db :=
    ((findOwner_writes event receivedAt).establishes db).mono fun _ _ h =>
      h invoiceDrafts (by decide)
  unfold ownsInvoice
  refine .bind fun owner db₁ hr => ?_
  have hfound := findOwner_establishes event receivedAt hvalid owner db₁ hr
  have hdrafts := hdrafts owner db₁ hr
  cases owner with
  | none => exact (establishes_done _).mpr (.unowned hdrafts hfound)
  | some o =>
      obtain ⟨ho, howns, howned⟩ := hfound
      refine .bind ((createOwnedDraft_establishes o event receivedAt db₁).mono ?_)
      rintro _ db₂ ⟨hdrafts₂, howned₂⟩
      refine (establishes_done _).mpr (.owned ho howns ?_ ?_)
      · rw [hdrafts₂, hdrafts]
      · rw [howned₂, howned]

/-- Queueing leaves drafts and owners alone and adds at most a job for the invoice. -/
theorem queueTransfer_establishes (jobId : TransferJobId) (event : CreditedInvoiceEvent)
    (net receivedAt : ℤ) (db : Database Row) :
    Establishes (respond metadata) (queueTransfer jobId event net receivedAt) (fun _ db' =>
      db' invoiceDrafts = db invoiceDrafts ∧ db' ownedInvoices = db ownedInvoices ∧
        ∀ j' ∈ db' transferJobs, j' ∈ db transferJobs ∨ j'.invoiceId = event.invoiceId) db := by
  intro outcome db' hr
  have hframe := (queueTransfer_writes jobId event net receivedAt).establishes db outcome db' hr
  refine ⟨hframe invoiceDrafts (by decide), hframe ownedInvoices (by decide), fun j' hj' => ?_⟩
  rcases queueTransfer_jobs jobId event net receivedAt db outcome db' hr with hjobs | hjobs
  · exact .inl (hjobs ▸ hj')
  · rw [hjobs, List.mem_append, List.mem_singleton] at hj'
    rcases hj' with hj' | rfl
    · exact .inl hj'
    · exact .inr rfl

/-- The three tables that ownership is about are as before. -/
def SameInvoices (db db' : Database Row) : Prop :=
  db' invoiceDrafts = db invoiceDrafts ∧ db' ownedInvoices = db ownedInvoices ∧
    db' transferJobs = db transferJobs

theorem SameInvoices.untouched {r : EventRecord} {db db' : Database Row}
    (h : SameInvoices db db') : Recorded r db db' :=
  .untouched h.1 h.2.1 fun j' hj' => ⟨j', h.2.2 ▸ hj', .refl j'⟩

theorem markOutcome_same (eventId : EventId) (outcome : EventWriteResult) (db : Database Row) :
    Establishes (respond metadata) (markOutcome eventId outcome)
      (fun _ db' => SameInvoices db db') db :=
  ((markOutcome_writes eventId outcome).establishes db).mono fun _ _ h =>
    ⟨h invoiceDrafts (by decide), h ownedInvoices (by decide), h transferJobs (by decide)⟩

/-- An owned event that was queued, or whose queueing was refused. -/
theorem Ownership.queued {r : EventRecord} {event : CreditedInvoiceEvent}
    (hevent : r.event = .credited event) {db db₁ db₂ : Database Row}
    (h : Ownership event r.receivedAt db db₁ true) (hjobs : db₁ transferJobs = db transferJobs)
    (hdrafts : db₂ invoiceDrafts = db₁ invoiceDrafts)
    (howned : db₂ ownedInvoices = db₁ ownedInvoices)
    (hqueued : ∀ j' ∈ db₂ transferJobs, j' ∈ db₁ transferJobs ∨ j'.invoiceId = event.invoiceId) :
    Recorded r db db₂ := by
  cases h with
  | owned ho howns hdrafts₁ howned₁ =>
      refine .owned hevent ho howns (hdrafts.trans hdrafts₁) (howned.trans howned₁) ?_
      intro j' hj'
      rcases hqueued j' hj' with hj' | hj'
      · exact .inl ⟨j', hjobs ▸ hj', .refl j'⟩
      · exact .inr hj'

theorem promoteStored_recorded (jobId : TransferJobId) {r : EventRecord}
    {event : CreditedInvoiceEvent} (hevent : r.event = .credited event) (net : ℤ)
    {db : Database Row} (hvalid : metadata.Valid ownedInvoices (db ownedInvoices)) :
    Establishes (respond metadata) (promoteStored jobId r event net)
      (fun _ db' => Recorded r db db') db := by
  unfold promoteStored
  refine .bind fun owned db₁ hr => ?_
  have hown := ownsInvoice_establishes event r.receivedAt hvalid owned db₁ hr
  have hjobs := ownsInvoice_jobs event r.receivedAt db owned db₁ hr
  cases owned with
  | false =>
      cases hown with
      | unowned hdrafts howned =>
          exact (establishes_done _).mpr (SameInvoices.untouched ⟨hdrafts, howned, hjobs⟩)
  | true =>
      refine .bind ((queueTransfer_establishes jobId event net r.receivedAt db₁).mono ?_)
      rintro outcome db₂ ⟨hdrafts, howned, hqueued⟩
      split
      · refine (markOutcome_same _ _ db₂).mono fun _ db₃ hsame => ?_
        refine hown.queued hevent hjobs (hsame.1.trans hdrafts) (hsame.2.1.trans howned) ?_
        rw [hsame.2.2]
        exact hqueued
      · exact (establishes_done _).mpr (hown.queued hevent hjobs hdrafts howned hqueued)

theorem recoverDuplicate_recorded (jobId : TransferJobId) (r : EventRecord) {db : Database Row}
    (hvalid : metadata.Valid ownedInvoices (db ownedInvoices)) :
    Establishes (respond metadata) (recoverDuplicate jobId r)
      (fun _ db' => Recorded r db db') db := by
  have hsame : Recorded r db db := SameInvoices.untouched ⟨rfl, rfl, rfl⟩
  unfold recoverDuplicate
  split
  · next event net hevent hnet =>
      simp only [select_bind, establishes_call, respond_select]
      split
      · exact (establishes_done _).mpr hsame
      · exact establishes_ite _ (fun _ => (establishes_done _).mpr hsame)
          fun _ => promoteStored_recorded jobId hevent net hvalid
  · exact (establishes_done _).mpr hsame

theorem Recorded.after_insert {r : EventRecord} {db db₁ db₂ : Database Row}
    (hsame : SameInvoices db db₁) (h : Recorded r db₁ db₂) : Recorded r db db₂ := by
  obtain ⟨hdrafts, howned, hjobs⟩ := hsame
  cases h with
  | untouched hdrafts' howned' hjobs' =>
      rw [hjobs] at hjobs'
      exact .untouched (hdrafts'.trans hdrafts) (howned'.trans howned) hjobs'
  | owned hevent ho howns hdrafts' howned' hjobs' =>
      rw [howned] at ho howned'
      rw [hdrafts] at hdrafts'
      rw [hjobs] at hjobs'
      exact .owned hevent ho howns hdrafts' howned' hjobs'

theorem record_recorded (jobId : TransferJobId) (r : EventRecord) {db : Database Row}
    (hvalid : metadata.Valid ownedInvoices (db ownedInvoices)) :
    Establishes (respond metadata) (EventRecording.record jobId r)
      (fun _ db' => Recorded r db db') db := by
  have hinsert : ∀ {outcome} {db' : Database Row}, db' = db.set webhookEvents
      (db webhookEvents ++ [eventRow r outcome]) → SameInvoices db db' := by
    rintro outcome db' rfl
    exact ⟨Database.set_of_ne _ (by decide) _, Database.set_of_ne _ (by decide) _,
      Database.set_of_ne _ (by decide) _⟩
  unfold EventRecording.record
  split
  · next event hevent =>
      intro outcome db' hr
      have hframe := (recordTransferEvent_writes r event).establishes db outcome db' hr
      exact .untouched (hframe invoiceDrafts (by decide)) (hframe ownedInvoices (by decide))
        ((recordTransferEvent_jobs jobId hevent db outcome db' hr).no_new hevent)
  · refine insertEvent_establishes (fun _ db₁ h₁ => ?_) (recoverDuplicate_recorded jobId r hvalid)
    have hsame := hinsert h₁
    simp only
    split
    · next event net hevent hnet =>
        refine .bind fun owned db₂ hr => ?_
        have hvalid₁ : metadata.Valid ownedInvoices (db₁ ownedInvoices) := hsame.2.1 ▸ hvalid
        have hown := ownsInvoice_establishes event r.receivedAt hvalid₁ owned db₂ hr
        have hjobs := ownsInvoice_jobs event r.receivedAt db₁ owned db₂ hr
        cases owned with
        | false =>
            refine (markOutcome_same _ _ db₂).mono fun _ db₃ h₃ => .after_insert hsame ?_
            cases hown with
            | unowned hdrafts howned =>
                exact SameInvoices.untouched
                  ⟨h₃.1.trans hdrafts, h₃.2.1.trans howned, h₃.2.2.trans hjobs⟩
        | true =>
            refine (queueTransfer_establishes jobId event net r.receivedAt db₂).mono ?_
            rintro outcome db₃ ⟨hdrafts, howned, hqueued⟩
            exact .after_insert hsame (hown.queued hevent hjobs hdrafts howned hqueued)
    · exact (establishes_done _).mpr hsame.untouched

theorem record_changes (jobId : TransferJobId) (r : EventRecord) {db : Database Row}
    (hc : metadata.Consistent db) :
    Recorded r db ((StoreOp.events (.record jobId r)).apply db).2 :=
  (record_recorded jobId r (hc ownedInvoices)).atomically
    (SameInvoices.untouched ⟨rfl, rfl, rfl⟩)

/-! ### The columns that no operation changes -/

/-- One draft at two times. -/
structure SameDraft (d d' : InvoiceDraftRow) : Prop where
  id : d'.id = d.id
  batchId : d'.batchId = d.batchId
  tag : d'.tag = d.tag

/-- One owned row at two times. -/
structure SameOwner (o o' : OwnedInvoiceRow) : Prop where
  tag : o'.tag = o.tag
  draftId : o'.draftId = o.draftId

theorem SameDraft.refl (d : InvoiceDraftRow) : SameDraft d d := ⟨rfl, rfl, rfl⟩

theorem SameDraft.trans {d d' d'' : InvoiceDraftRow} (h : SameDraft d d')
    (h' : SameDraft d' d'') : SameDraft d d'' :=
  ⟨h'.id.trans h.id, h'.batchId.trans h.batchId, h'.tag.trans h.tag⟩

theorem SameOwner.refl (o : OwnedInvoiceRow) : SameOwner o o := ⟨rfl, rfl⟩

/-- No draft and no owned row is lost. -/
structure RowsKept (db db' : Database Row) : Prop where
  drafts : ∀ d ∈ db invoiceDrafts, ∃ d' ∈ db' invoiceDrafts, SameDraft d d'
  owners : ∀ o ∈ db ownedInvoices, ∃ o' ∈ db' ownedInvoices, SameOwner o o'

theorem RowsKept.of_eq {db db' : Database Row} (hdrafts : db' invoiceDrafts = db invoiceDrafts)
    (howned : db' ownedInvoices = db ownedInvoices) : RowsKept db db' where
  drafts d hd := ⟨d, hdrafts ▸ hd, .refl d⟩
  owners o ho := ⟨o, howned ▸ ho, .refl o⟩

theorem assigned_drafts {drafts : List InvoiceDraftRow} {condition : InvoiceDraftRow → Bool}
    {assign : InvoiceDraftRow → InvoiceDraftRow} (h : ∀ d, SameDraft d (assign d)) :
    ∀ d ∈ drafts, ∃ d' ∈ assignWhere condition assign drafts, SameDraft d d' := by
  intro d hd
  refine ⟨_, List.mem_map.mpr ⟨d, hd, rfl⟩, ?_⟩
  split_ifs
  · exact h d
  · exact .refl d

theorem assigned_owners {owned : List OwnedInvoiceRow} {condition : OwnedInvoiceRow → Bool}
    {assign : OwnedInvoiceRow → OwnedInvoiceRow} (h : ∀ o, SameOwner o (assign o)) :
    ∀ o ∈ owned, ∃ o' ∈ assignWhere condition assign owned, SameOwner o o' := by
  intro o ho
  refine ⟨_, List.mem_map.mpr ⟨o, ho, rfl⟩, ?_⟩
  split_ifs
  · exact h o
  · exact .refl o

theorem appended {R : Type} {same : R → R → Prop} (hrefl : ∀ r, same r r) {rows new : List R} :
    ∀ r ∈ rows, ∃ r' ∈ rows ++ new, same r r' :=
  fun r hr => ⟨r, List.mem_append.mpr (.inl hr), hrefl r⟩

theorem invoices_rowsKept (op : InvoiceStoreOp) (db : Database Row) :
    RowsKept db ((StoreOp.invoices op).apply db).2 := by
  have hchanged := invoices_changes op db
  unfold InvoicesChangedIn at hchanged
  generalize ((StoreOp.invoices op).apply db).2 = db' at hchanged ⊢
  generalize hdrafts : db' invoiceDrafts = drafts' at hchanged
  generalize howned : db' ownedInvoices = owned' at hchanged
  refine ⟨hdrafts ▸ ?_, howned ▸ ?_⟩
  · cases hchanged with
    | saved => exact appended .refl
    | transitioned => exact assigned_drafts fun d => ⟨rfl, rfl, rfl⟩
    | retried => exact assigned_drafts fun d => ⟨rfl, rfl, rfl⟩
    | missed => exact assigned_drafts fun d => ⟨rfl, rfl, rfl⟩
    | _ => exact fun d hd => ⟨d, hd, .refl d⟩
  · cases hchanged with
    | saved => exact appended .refl
    | registered => exact appended .refl
    | bound _ hassign => exact assigned_owners fun o => ⟨(hassign o).1, (hassign o).2.1⟩
    | transitioned => exact assigned_owners fun o => ⟨rfl, rfl⟩
    | _ => exact fun o ho => ⟨o, ho, .refl o⟩

theorem createdDrafts_kept (o : OwnedInvoiceRow) (event : CreditedInvoiceEvent)
    (receivedAt : ℤ) (drafts : List InvoiceDraftRow) :
    ∀ d ∈ drafts, ∃ d' ∈ createdDrafts o event receivedAt drafts, SameDraft d d' := by
  unfold createdDrafts
  cases o.draftId with
  | none => exact fun d hd => ⟨d, hd, .refl d⟩
  | some draftId => exact assigned_drafts fun d => ⟨rfl, rfl, rfl⟩

theorem Recorded.rowsKept {r : EventRecord} {db db' : Database Row} (h : Recorded r db db') :
    RowsKept db db' := by
  cases h with
  | untouched hdrafts howned _ => exact .of_eq hdrafts howned
  | owned _ _ _ hdrafts howned _ =>
      refine ⟨?_, ?_⟩
      · rw [hdrafts]
        exact createdDrafts_kept _ _ _ _
      · rw [howned]
        exact assigned_owners fun o => ⟨rfl, rfl⟩

/-- Drafts and owned rows are as before, and no invoice is queued. -/
structure Untouched (db db' : Database Row) : Prop where
  drafts : db' invoiceDrafts = db invoiceDrafts
  owners : db' ownedInvoices = db ownedInvoices
  jobs : ∀ j' ∈ db' transferJobs, ∃ j ∈ db transferJobs, SameTransfer j j'

/-- Only the invoice store and the recording of events write drafts and owned rows. -/
theorem apply_cases (op : StoreOp) :
    (∃ iop, op = .invoices iop) ∨ (∃ jobId r, op = .events (.record jobId r)) ∨
      ∀ db, Untouched db (op.apply db).2 := by
  have hframe : invoiceDrafts ∉ op.tables → ownedInvoices ∉ op.tables →
      (∀ db, ∀ j' ∈ (op.apply db).2 transferJobs, ∃ j ∈ db transferJobs, SameTransfer j j') →
      ∀ db, Untouched db (op.apply db).2 := fun hdrafts howned hjobs db =>
    ⟨StoreOp.apply_frame op hdrafts db, StoreOp.apply_frame op howned db, hjobs db⟩
  cases op with
  | invoices iop => exact .inl ⟨iop, rfl⟩
  | trials op =>
      refine .inr (.inr (hframe ?_ ?_ fun db => (StoreOp.apply_sameTransfers (by simp) db).no_new))
      · cases op <;> simp [StoreOp.tables, TrialStoreOp.tables]
      · cases op <;> simp [StoreOp.tables, TrialStoreOp.tables]
  | transfers op =>
      refine .inr (.inr (hframe ?_ ?_ fun db => (StoreOp.apply_sameTransfers (by simp) db).no_new))
      · cases op <;> simp [StoreOp.tables, TransferStoreOp.tables]
      · cases op <;> simp [StoreOp.tables, TransferStoreOp.tables]
  | events op =>
      cases op with
      | record jobId r => exact .inr (.inl ⟨jobId, r, rfl⟩)
      | recordIgnoredWorkspace r =>
          refine .inr (.inr (hframe ?_ ?_ fun db j hj => ⟨j, ?_, .refl j⟩))
          · simp [StoreOp.tables, EventStoreOp.tables]
          · simp [StoreOp.tables, EventStoreOp.tables]
          · rwa [recordIgnoredWorkspace_apply_jobs] at hj

theorem apply_rowsKept {db : Database Row} (hc : metadata.Consistent db) (op : StoreOp) :
    RowsKept db (op.apply db).2 := by
  rcases apply_cases op with ⟨iop, rfl⟩ | ⟨jobId, r, rfl⟩ | hsame
  · exact invoices_rowsKept iop db
  · exact (record_changes jobId r hc).rowsKept
  · exact .of_eq (hsame db).drafts (hsame db).owners

end StarkbankTrial.InvoiceChanges
