import StarkbankTrial.InvoiceFacts

/-!
# Owned invoices and the provider

What the tables say about invoices agrees with what the provider holds, and every call
that tells the truth keeps it so.
-/
namespace StarkbankTrial.OwnedInvoices
open Domain InteractivePrograms InterleavedRuns RelationalTables DatabaseSchema
open DatabaseSchema.Table
open EventRecording InvoiceRecording StoreOperations InvoiceChanges ExternalCalls InvoiceFacts

/-- Owned rows carry the tags of their drafts, a bound invoice carries the tag of its
row, and a queued invoice carries an owned tag. -/
structure Owned (held : List HeldInvoice) (db : Database Row) : Prop where
  consistent : metadata.Consistent db
  drafts : ∀ o ∈ db ownedInvoices, ∀ id, o.draftId = some id →
    ∃ d ∈ db invoiceDrafts, d.id = id ∧ d.tag = o.tag
  bound : ∀ o ∈ db ownedInvoices, ∀ id, o.providerInvoiceId = some id → Carries held id o.tag
  queued : ∀ j ∈ db transferJobs, ∃ o ∈ db ownedInvoices, Carries held j.invoiceId o.tag

theorem Owned.of_empty {db : Database Row} (hc : metadata.Consistent db)
    (howned : db ownedInvoices = []) (hjobs : db transferJobs = []) (held : List HeldInvoice) :
    Owned held db where
  consistent := hc
  drafts o ho := absurd ho (by simp [howned])
  bound o ho := absurd ho (by simp [howned])
  queued j hj := absurd hj (by simp [hjobs])

theorem Owned.mono {held held' : List HeldInvoice} {db : Database Row} (h : Owned held db)
    (hsub : ∀ x ∈ held, x ∈ held') : Owned held' db where
  consistent := h.consistent
  drafts := h.drafts
  bound o ho id hid := (h.bound o ho id hid).mono hsub
  queued j hj := by
    obtain ⟨o, ho, hc⟩ := h.queued j hj
    exact ⟨o, ho, hc.mono hsub⟩

theorem Owned.reordered {held : List HeldInvoice} {db db' : Database Row} (h : Owned held db)
    (hdb : Reordered db db') : Owned held db' where
  consistent := hdb.consistent h.consistent
  drafts o ho id hid := by
    obtain ⟨d, hd, hrest⟩ := h.drafts o (hdb.mem.mp ho) id hid
    exact ⟨d, hdb.mem.mpr hd, hrest⟩
  bound o ho := h.bound o (hdb.mem.mp ho)
  queued j hj := by
    obtain ⟨o, ho, hc⟩ := h.queued j (hdb.mem.mp hj)
    exact ⟨o, hdb.mem.mpr ho, hc⟩

variable {smoke : Bool} {held : List HeldInvoice} {db db' : Database Row}

/-- A transaction: an owned row afterwards is an old one, bound only to an invoice with
its tag, or a new one for a draft. -/
theorem Owned.step (h : Owned held db) (hc : metadata.Consistent db') (hkept : RowsKept db db')
    (howned : ∀ o' ∈ db' ownedInvoices,
      (∃ o ∈ db ownedInvoices, SameOwner o o' ∧ ∀ id, o'.providerInvoiceId = some id →
        o.providerInvoiceId = some id ∨ Carries held id o.tag) ∨
      (o'.providerInvoiceId = none ∧ ∀ id, o'.draftId = some id →
        ∃ d ∈ db' invoiceDrafts, d.id = id ∧ d.tag = o'.tag))
    (hjobs : ∀ j' ∈ db' transferJobs, (∃ j ∈ db transferJobs, SameTransfer j j') ∨
      ∃ o ∈ db ownedInvoices, Carries held j'.invoiceId o.tag) : Owned held db' where
  consistent := hc
  drafts o' ho' id hid := by
    rcases howned o' ho' with ⟨o, ho, hsame, -⟩ | ⟨-, hdraft⟩
    · rw [hsame.draftId] at hid
      obtain ⟨d, hd, hdid, htag⟩ := h.drafts o ho id hid
      obtain ⟨d', hd', hsame'⟩ := hkept.drafts d hd
      exact ⟨d', hd', hsame'.id.trans hdid, by rw [hsame'.tag, hsame.tag, htag]⟩
    · exact hdraft id hid
  bound o' ho' id hid := by
    rcases howned o' ho' with ⟨o, ho, hsame, hbound⟩ | ⟨hnone, -⟩
    · rw [hsame.tag]
      rcases hbound id hid with hid | hcarries
      · exact h.bound o ho id hid
      · exact hcarries
    · simp [hnone] at hid
  queued j' hj' := by
    obtain ⟨o, ho, hcarries⟩ : ∃ o ∈ db ownedInvoices, Carries held j'.invoiceId o.tag := by
      rcases hjobs j' hj' with ⟨j, hj, hsame⟩ | hnew
      · rw [hsame.invoiceId]
        exact h.queued j hj
      · exact hnew
    obtain ⟨o', ho', hsame⟩ := hkept.owners o ho
    exact ⟨o', ho', hsame.tag ▸ hcarries⟩

/-- The assignment of an invoice to some rows. -/
theorem assigned {owned : List OwnedInvoiceRow} {condition : OwnedInvoiceRow → Bool}
    {assign : OwnedInvoiceRow → OwnedInvoiceRow} {o' : OwnedInvoiceRow}
    (ho' : o' ∈ assignWhere condition assign owned) (hsame : ∀ o, SameOwner o (assign o))
    (hbound : ∀ o ∈ owned, condition o = true → ∀ id, (assign o).providerInvoiceId = some id →
      o.providerInvoiceId = some id ∨ Carries held id o.tag) :
    ∃ o ∈ owned, SameOwner o o' ∧ ∀ id, o'.providerInvoiceId = some id →
      o.providerInvoiceId = some id ∨ Carries held id o.tag := by
  rcases mem_assignWhere.mp ho' with ⟨o, ho, hc, rfl⟩ | ⟨ho, -⟩
  · exact ⟨o, ho, hsame o, hbound o ho hc⟩
  · exact ⟨o', ho, .refl o', fun id hid => .inl hid⟩

theorem Owned.unchanged (h : Owned held db) (hc : metadata.Consistent db')
    (hdrafts : db' invoiceDrafts = db invoiceDrafts) (howned : db' ownedInvoices = db ownedInvoices)
    (hjobs : ∀ j' ∈ db' transferJobs, ∃ j ∈ db transferJobs, SameTransfer j j') :
    Owned held db' := by
  refine h.step hc (.of_eq hdrafts howned) (fun o ho => .inl ⟨o, howned ▸ ho, .refl o, ?_⟩)
    fun j hj => .inl (hjobs j hj)
  exact fun id hid => .inl hid

/-- The operations of the invoice store. -/
theorem Owned.invoices (h : Owned held db) {op : InvoiceStoreOp}
    (htrue : Truthful smoke held db (.invoices op)) :
    Owned held ((StoreOp.invoices op).apply db).2 := by
  have hc := StoreOp.apply_consistent h.consistent (.invoices op)
  have hjobs : ((StoreOp.invoices op).apply db).2 transferJobs = db transferJobs :=
    StoreOp.apply_frame _ (by cases op <;> simp [StoreOp.tables, InvoiceStoreOp.tables]) db
  have hchanged := invoices_changes op db
  refine h.step hc (invoices_rowsKept op db) ?_ fun j hj => .inl ⟨j, hjobs ▸ hj, .refl j⟩
  unfold InvoicesChangedIn at hchanged
  generalize ((StoreOp.invoices op).apply db).2 = db' at hchanged ⊢
  generalize hdrafts : db' invoiceDrafts = drafts' at hchanged ⊢
  generalize db' ownedInvoices = owned' at hchanged ⊢
  have hold : ∀ o ∈ db ownedInvoices, ∃ o₀ ∈ db ownedInvoices, SameOwner o₀ o ∧
      ∀ id, o.providerInvoiceId = some id →
        o₀.providerInvoiceId = some id ∨ Carries held id o₀.tag :=
    fun o ho => ⟨o, ho, .refl o, fun id hid => .inl hid⟩
  intro o' ho'
  cases hchanged with
  | saved =>
      rcases List.mem_append.mp ho' with ho | hnew
      · exact .inl (hold o' ho)
      · obtain ⟨d, hd, rfl⟩ := List.mem_map.mp hnew
        refine .inr ⟨rfl, fun id hid => ⟨d, List.mem_append.mpr (.inr hd), ?_, rfl⟩⟩
        exact Option.some.inj hid
  | registered =>
      rcases List.mem_append.mp ho' with ho | hnew
      · exact .inl (hold o' ho)
      · obtain rfl := List.mem_singleton.mp hnew
        exact .inr ⟨rfl, fun id hid => by simp [smokeOwner] at hid⟩
  | bound hop hassign =>
      subst hop
      refine .inl (assigned ho' (fun o => ⟨(hassign o).1, (hassign o).2.1⟩) ?_)
      intro o _ htag id hid
      rcases (hassign o).2.2 with hbound | hsame
      · rw [hbound] at hid
        obtain rfl := Option.some.inj hid
        rw [beq_iff_eq.mp htag]
        exact .inr htrue.2
      · exact .inl (hsame ▸ hid)
  | @transitioned t hop =>
      refine .inl (assigned ho' (fun o => ⟨rfl, rfl⟩) ?_)
      intro o ho hdraft id hid
      obtain ⟨d, hd, hdid, hcarries⟩ := htrue.transition hop hid
      obtain ⟨d₀, hd₀, hdid₀, htag⟩ := h.drafts o ho t.draftId (beq_iff_eq.mp hdraft)
      obtain rfl := (h.consistent invoiceDrafts).eq_of_key hd₀ hd (hdid₀.trans hdid.symm)
      exact .inr (htag ▸ hcarries)
  | _ => exact .inl (hold o' ho')

/-- A recorded event binds a row to an invoice that carries its tag. -/
theorem Owned.record (h : Owned held db) {jobId : TransferJobId} {r : EventRecord}
    (htrue : ∀ event, r.event = .credited event → TrueEvent held event) :
    Owned held ((StoreOp.events (.record jobId r)).apply db).2 := by
  have hc := StoreOp.apply_consistent h.consistent (.events (.record jobId r))
  have hrecorded := record_changes jobId r h.consistent
  have hkept := hrecorded.rowsKept
  cases hrecorded with
  | untouched hdrafts howned hjobs => exact h.unchanged hc hdrafts howned hjobs
  | @owned event owner hevent howner howns _ howned hjobs =>
      obtain ⟨x, hx, hid, htags⟩ := htrue event hevent
      have hcarries : Carries held event.invoiceId owner.tag := by
        cases howns with
        | byId hbound => exact h.bound owner howner event.invoiceId hbound
        | byTag htag _ => exact ⟨x, hx, hid, htags owner.tag htag⟩
      refine h.step hc hkept ?_ fun j' hj' => ?_
      · rw [howned]
        refine fun o' ho' => .inl (assigned ho' (fun o => ⟨rfl, rfl⟩) ?_)
        intro o ho hcond id hid
        simp only [Bool.and_eq_true, beq_iff_eq] at hcond
        obtain rfl := Option.some.inj hid
        exact .inr (hcond.1 ▸ hcarries)
      · rcases hjobs j' hj' with hold | hinvoice
        · exact .inl hold
        · exact .inr ⟨owner, howner, hinvoice ▸ hcarries⟩

theorem Owned.apply (h : Owned held db) {op : StoreOp} (htrue : Truthful smoke held db op) :
    Owned held (op.apply db).2 := by
  have hc := StoreOp.apply_consistent h.consistent op
  rcases apply_cases op with ⟨iop, rfl⟩ | ⟨jobId, r, rfl⟩ | hsame
  · exact h.invoices htrue
  · exact h.record htrue
  · exact h.unchanged hc (hsame db).drafts (hsame db).owners (hsame db).jobs

/-- Every call that tells the truth, at a provider that gives new ids. -/
theorem Owned.performs {p : Provider} {clock : ℤ → Prop} {w w' : World} {call : Call}
    {r : call.Answer} (h : Owned w.invoices w.db) (hunique : UniqueIds w.invoices)
    (hcreated : ∀ w request answer held, p.invoiceCreate w request answer held →
      ∃ lost, InvoiceCreated (fun id => ∀ x ∈ w.invoices, x.id ≠ id) lost w.invoices request
        answer held)
    (htrue : TruthfulCall smoke w call) (hp : Performs p clock w call r w') :
    Owned w'.invoices w'.db ∧ UniqueIds w'.invoices := by
  cases call with
  | now =>
      obtain ⟨-, rfl⟩ := hp
      exact ⟨h, hunique⟩
  | store op =>
      obtain ⟨-, rfl⟩ := hp
      exact ⟨h.apply htrue, hunique⟩
  | invoiceCreate request =>
      obtain ⟨held, hcreate, rfl⟩ := hp
      obtain ⟨lost, hcreate⟩ := hcreated _ _ _ _ hcreate
      refine ⟨h.mono hcreate.subset, ?_⟩
      rcases hcreate.added with hsame | ⟨id, hfresh, hadded⟩
      · exact hsame ▸ hunique
      · exact hadded ▸ hunique.append hfresh
  | invoiceQuery limit tags =>
      obtain ⟨-, rfl⟩ := hp
      exact ⟨h, hunique⟩
  | transferCreate request =>
      obtain ⟨held, -, rfl⟩ := hp
      exact ⟨h, hunique⟩
  | transferQuery limit tags =>
      obtain ⟨-, rfl⟩ := hp
      exact ⟨h, hunique⟩

end StarkbankTrial.OwnedInvoices
