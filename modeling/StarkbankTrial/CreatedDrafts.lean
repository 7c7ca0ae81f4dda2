import StarkbankTrial.OwnedInvoices
import StarkbankTrial.ScriptedRuns

/-!
# Drafts that have their invoice

A tick or a reconcile pass writes what became of a draft by its id alone, from a lookup or
a creation that may be older than the credit that bound the draft. Such a write undoes the
binding when it says anything but the invoice. As long as none does, a created draft keeps
its invoice in every later state, for any interleaving with deliveries.
-/
namespace StarkbankTrial.CreatedDrafts
open Domain InteractivePrograms InterleavedRuns RelationalTables DatabaseSchema
open DatabaseSchema.Table
open EventRecording InvoiceRecording StoreOperations InvoiceChanges ExternalCalls
open Services WorkerRules TrialRules ScriptedRuns InvoiceFacts OwnedInvoices

/-- The draft is created with the invoice. -/
def Created (db : Database Row) (id : DraftId) (invoice : InvoiceId) : Prop :=
  ∃ d ∈ db invoiceDrafts, d.id = id ∧ d.status = .created ∧ d.providerInvoiceId = some invoice

instance (db : Database Row) (id : DraftId) (invoice : InvoiceId) :
    Decidable (Created db id invoice) :=
  inferInstanceAs (Decidable (∃ d ∈ db invoiceDrafts, _ ∧ _ ∧ _))

/-- Its owned row is bound to the invoice. -/
def Bound (db : Database Row) (id : DraftId) (invoice : InvoiceId) : Prop :=
  ∃ o ∈ db ownedInvoices, o.draftId = some id ∧ o.providerInvoiceId = some invoice

/-- The draft about which an operation writes a result without an invoice. -/
def missing : InvoiceStoreOp → Option DraftId
  | .unknownResult result => some result.draftId
  | .retry result _ _ => some result.draftId
  | .failed result => some result.draftId
  | .reconcile result _ =>
      match result.providerInvoice with
      | none => some result.draft.id
      | some _ => none
  | _ => none

/-- No such write lands on a created draft. -/
def Spares (db : Database Row) : Call → Prop
  | .store (.invoices op) => ∀ id ∈ missing op, ∀ d ∈ db invoiceDrafts, d.id = id →
      d.status ≠ .created
  | _ => True

/-! ### Drafts and their owned rows -/

/-- Every draft has its owned row with the same invoice, and has one when it is created. -/
structure Agreed (db : Database Row) : Prop where
  status : ∀ d ∈ db invoiceDrafts, d.status = .created ↔ d.providerInvoiceId ≠ none
  owner : ∀ d ∈ db invoiceDrafts, ∃ o ∈ db ownedInvoices, o.draftId = some d.id
  same : ∀ d ∈ db invoiceDrafts, ∀ o ∈ db ownedInvoices, o.draftId = some d.id →
    o.providerInvoiceId = d.providerInvoiceId

theorem Agreed.bound {db : Database Row} (h : Agreed db) {id : DraftId} {invoice : InvoiceId}
    (hc : Created db id invoice) : Bound db id invoice := by
  obtain ⟨d, hd, rfl, -, hinvoice⟩ := hc
  obtain ⟨o, ho, hdraft⟩ := h.owner d hd
  exact ⟨o, ho, hdraft, (h.same d hd o ho hdraft).trans hinvoice⟩

theorem Agreed.of_eq {db db' : Database Row} (h : Agreed db)
    (hdrafts : db' invoiceDrafts = db invoiceDrafts) (howned : db' ownedInvoices = db ownedInvoices) :
    Agreed db' := ⟨hdrafts ▸ h.status, hdrafts ▸ howned ▸ h.owner, hdrafts ▸ howned ▸ h.same⟩

theorem Agreed.reordered {db db' : Database Row} (h : Agreed db) (hdb : Reordered db db') :
    Agreed db' where
  status d hd := h.status d (hdb.mem.mp hd)
  owner d hd := by
    obtain ⟨o, ho, hdraft⟩ := h.owner d (hdb.mem.mp hd)
    exact ⟨o, hdb.mem.mpr ho, hdraft⟩
  same d hd o ho := h.same d (hdb.mem.mp hd) o (hdb.mem.mp ho)

/-- The provider holds at most one invoice for a tag. -/
def OneForTag (held : List HeldInvoice) : Prop :=
  ∀ x ∈ held, ∀ y ∈ held, ∀ tag, tag ∈ x.request.tags → tag ∈ y.request.tags → x = y

theorem OneForTag.carries {held : List HeldInvoice} (h : OneForTag held) {id id' : InvoiceId}
    {tag : String} (hc : Carries held id tag) (hc' : Carries held id' tag) : id = id' := by
  obtain ⟨x, hx, rfl, htag⟩ := hc
  obtain ⟨y, hy, rfl, htag'⟩ := hc'
  rw [h x hx y hy tag htag htag']

/-- What is so in every state. -/
structure Inv (w : World) : Prop where
  owned : Owned w.invoices w.db
  agreed : Agreed w.db
  unique : UniqueIds w.invoices
  oneForTag : OneForTag w.invoices

section
variable {held : List HeldInvoice} {db db' : Database Row}

/-- The owned row of a draft carries its tag. -/
theorem tag_of_owner (h : Owned held db) {d : InvoiceDraftRow} {o : OwnedInvoiceRow}
    (hd : d ∈ db invoiceDrafts) (ho : o ∈ db ownedInvoices) (hdraft : o.draftId = some d.id) :
    d.tag = o.tag := by
  obtain ⟨d', hd', hid, htag⟩ := h.drafts o ho d.id hdraft
  obtain rfl := (h.consistent invoiceDrafts).eq_of_key hd' hd hid
  exact htag

/-- A created draft carries the tag of its invoice. -/
theorem carries_of_created (h : Owned held db) (ha : Agreed db) {d : InvoiceDraftRow}
    (hd : d ∈ db invoiceDrafts) {invoice : InvoiceId}
    (hinvoice : d.providerInvoiceId = some invoice) : Carries held invoice d.tag := by
  obtain ⟨o, ho, hdraft⟩ := ha.owner d hd
  rw [tag_of_owner h hd ho hdraft]
  exact h.bound o ho invoice ((ha.same d hd o ho hdraft).trans hinvoice)

/-- Both tables change row by row, each draft as its owned row. -/
theorem Agreed.map (h : Agreed db) {f : InvoiceDraftRow → InvoiceDraftRow}
    {g : OwnedInvoiceRow → OwnedInvoiceRow}
    (hdrafts : db' invoiceDrafts = (db invoiceDrafts).map f)
    (howned : db' ownedInvoices = (db ownedInvoices).map g)
    (hid : ∀ d, (f d).id = d.id) (howner : ∀ o, (g o).draftId = o.draftId)
    (hstatus : ∀ d ∈ db invoiceDrafts, (f d).status = .created ↔ (f d).providerInvoiceId ≠ none)
    (hsame : ∀ d ∈ db invoiceDrafts, ∀ o ∈ db ownedInvoices, o.draftId = some d.id →
      (g o).providerInvoiceId = (f d).providerInvoiceId) : Agreed db' where
  status d' hd' := by
    rw [hdrafts] at hd'
    obtain ⟨d, hd, rfl⟩ := List.mem_map.mp hd'
    exact hstatus d hd
  owner d' hd' := by
    rw [hdrafts] at hd'
    obtain ⟨d, hd, rfl⟩ := List.mem_map.mp hd'
    obtain ⟨o, ho, hdraft⟩ := h.owner d hd
    refine ⟨g o, howned ▸ List.mem_map.mpr ⟨o, ho, rfl⟩, ?_⟩
    rw [howner, hid, hdraft]
  same d' hd' o' ho' hdraft := by
    rw [hdrafts] at hd'
    rw [howned] at ho'
    obtain ⟨d, hd, rfl⟩ := List.mem_map.mp hd'
    obtain ⟨o, ho, rfl⟩ := List.mem_map.mp ho'
    rw [howner, hid] at hdraft
    exact hsame d hd o ho hdraft

/-- A transition writes both rows of its draft. -/
theorem Agreed.transition (h : Agreed db) {t : DraftTransition}
    (ht : t.status = .created ↔ t.providerInvoiceId ≠ none)
    (hdrafts : db' invoiceDrafts = assignWhere (fun d : InvoiceDraftRow => d.id == t.draftId)
      t.apply (db invoiceDrafts))
    (howned : db' ownedInvoices = assignWhere
      (fun o : OwnedInvoiceRow => o.draftId == some t.draftId) t.applyOwner (db ownedInvoices)) :
    Agreed db' := by
  refine h.map hdrafts howned (fun d => ?_) (fun o => ?_) (fun d hd => ?_) fun d hd o ho hdraft => ?_
  · split_ifs <;> rfl
  · split_ifs <;> rfl
  · split_ifs
    · exact ht
    · exact h.status d hd
  · have hiff : (o.draftId == some t.draftId) = (d.id == t.draftId) := by simp [hdraft]
    simp only [hiff]
    split_ifs
    · rfl
    · exact h.same d hd o ho hdraft

/-- A write without an invoice to a draft that is not created. -/
theorem Agreed.missing (h : Agreed db) {id : DraftId} {assign : InvoiceDraftRow → InvoiceDraftRow}
    (hdrafts : db' invoiceDrafts = assignWhere (fun d : InvoiceDraftRow => d.id == id) assign
      (db invoiceDrafts))
    (howned : db' ownedInvoices = db ownedInvoices)
    (hspared : ∀ d ∈ db invoiceDrafts, d.id = id → d.status ≠ .created)
    (hid : ∀ d, (assign d).id = d.id) (hstatus : ∀ d, (assign d).status ≠ .created)
    (hinvoice : ∀ d, d.providerInvoiceId = none → (assign d).providerInvoiceId = none) :
    Agreed db' := by
  have hnone : ∀ d ∈ db invoiceDrafts, d.id = id → d.providerInvoiceId = none := by
    intro d hd heq
    by_contra hbound
    exact hspared d hd heq ((h.status d hd).mpr hbound)
  have hmap : db' ownedInvoices = (db ownedInvoices).map fun o => o := by simp [howned]
  refine h.map hdrafts hmap (fun d => ?_) (fun _ => rfl) (fun d hd => ?_)
    fun d hd o ho hdraft => ?_
  · split_ifs
    · exact hid d
    · rfl
  · split_ifs with hc
    · simp [hstatus d, hinvoice d (hnone d hd (beq_iff_eq.mp hc))]
    · exact h.status d hd
  · split_ifs with hc
    · have hfree := hnone d hd (beq_iff_eq.mp hc)
      rw [hinvoice d hfree, ← hfree]
      exact h.same d hd o ho hdraft
    · exact h.same d hd o ho hdraft

/-- New drafts come with their owned rows. -/
theorem Agreed.saved (h : Agreed db) (hc : metadata.Consistent db') {new : List InvoiceDraftRow}
    (hstored : ∀ o ∈ db ownedInvoices, ∀ id, o.draftId = some id →
      ∃ d ∈ db invoiceDrafts, d.id = id ∧ d.tag = o.tag)
    (hnew : ∀ d ∈ new, d.status ≠ .created ∧ d.providerInvoiceId = none)
    (hdrafts' : db' invoiceDrafts = db invoiceDrafts ++ new)
    (howned' : db' ownedInvoices = db ownedInvoices ++ new.map trialOwner) : Agreed db' where
  status d hd := by
    rw [hdrafts'] at hd
    rcases List.mem_append.mp hd with hd | hd
    · exact h.status d hd
    · simp [hnew d hd]
  owner d hd := by
    rw [hdrafts'] at hd
    rw [howned']
    rcases List.mem_append.mp hd with hd | hd
    · obtain ⟨o, ho, hdraft⟩ := h.owner d hd
      exact ⟨o, List.mem_append.mpr (.inl ho), hdraft⟩
    · exact ⟨trialOwner d, List.mem_append.mpr (.inr (List.mem_map.mpr ⟨d, hd, rfl⟩)), rfl⟩
  same d hd o ho hdraft := by
    rw [howned'] at ho
    have hkey : ∀ d₀ ∈ db' invoiceDrafts, d₀.id = d.id → d₀ = d :=
      fun d₀ hd₀ hid => (hc invoiceDrafts).eq_of_key hd₀ hd hid
    rcases List.mem_append.mp ho with ho | ho
    · obtain ⟨d₀, hd₀, hid, -⟩ := hstored o ho d.id hdraft
      obtain rfl := hkey d₀ (hdrafts' ▸ List.mem_append.mpr (.inl hd₀)) hid
      exact h.same d₀ hd₀ o ho hdraft
    · obtain ⟨d₀, hd₀, rfl⟩ := List.mem_map.mp ho
      obtain rfl := hkey d₀ (hdrafts' ▸ List.mem_append.mpr (.inr hd₀)) (Option.some.inj hdraft)
      exact (hnew d₀ hd₀).2.symm

/-- The owned row of a smoke invoice belongs to no draft. -/
theorem Agreed.registered (h : Agreed db) {draft : InvoiceDraft} {time : ℤ}
    (hdrafts' : db' invoiceDrafts = db invoiceDrafts)
    (howned' : db' ownedInvoices = db ownedInvoices ++ [smokeOwner draft time]) : Agreed db' where
  status d hd := h.status d (hdrafts' ▸ hd)
  owner d hd := by
    obtain ⟨o, ho, hdraft⟩ := h.owner d (hdrafts' ▸ hd)
    exact ⟨o, howned' ▸ List.mem_append.mpr (.inl ho), hdraft⟩
  same d hd o ho hdraft := by
    rw [howned'] at ho
    rcases List.mem_append.mp ho with ho | ho
    · exact h.same d (hdrafts' ▸ hd) o ho hdraft
    · obtain rfl := List.mem_singleton.mp ho
      simp [smokeOwner] at hdraft

/-- A draft has one owned row. -/
theorem owner_unique (h : metadata.Consistent db) {o o' : OwnedInvoiceRow}
    (ho : o ∈ db ownedInvoices) (ho' : o' ∈ db ownedInvoices) {id : DraftId}
    (hdraft : o.draftId = some id) (hdraft' : o'.draftId = some id) : o = o' := by
  refine (h ownedInvoices).eq_of_clash ho ho' ?_
  have hshared : sameNonNull o.draftId o'.draftId = true :=
    sameNonNull_iff.mpr ⟨id, hdraft, hdraft'⟩
  simp [metadata, uniqueConflict, hshared]

/-- The credit of an owned invoice writes the draft and its owned row. -/
theorem Agreed.credited (h : Agreed db) (hc : metadata.Consistent db) {o : OwnedInvoiceRow}
    {event : CreditedInvoiceEvent} {time : ℤ} (ho : o ∈ db ownedInvoices) (howns : Owns event o)
    (hdrafts' : db' invoiceDrafts = createdDrafts o event time (db invoiceDrafts))
    (howned' : db' ownedInvoices = boundOwners o event time (db ownedInvoices)) : Agreed db' := by
  have hkey : ∀ o' ∈ db ownedInvoices, o'.tag = o.tag → o' = o :=
    fun o' ho' htag => (hc ownedInvoices).eq_of_key ho' ho htag
  unfold createdDrafts at hdrafts'
  cases hdraft : o.draftId with
  | none =>
      simp only [hdraft] at hdrafts'
      have hmap : db' invoiceDrafts = (db invoiceDrafts).map fun d => d := by simp [hdrafts']
      refine h.map hmap howned' (fun _ => rfl) (fun o' => ?_) h.status fun d hd o' ho' hdraft' => ?_
      · split_ifs <;> rfl
      · split_ifs with hcond
        · simp only [Bool.and_eq_true, beq_iff_eq] at hcond
          obtain rfl := hkey o' ho' hcond.1
          simp [hdraft] at hdraft'
        · exact h.same d hd o' ho' hdraft'
  | some draftId =>
      simp only [hdraft] at hdrafts'
      refine h.map hdrafts' howned' (fun d => ?_) (fun o' => ?_) (fun d hd => ?_)
        fun d hd o' ho' hdraft' => ?_
      · split_ifs <;> rfl
      · split_ifs <;> rfl
      · split_ifs
        · simp
        · exact h.status d hd
      · by_cases hsame : o' = o
        · -- the draft and its owned row are bound together
          subst hsame
          obtain rfl : draftId = d.id := Option.some.inj (hdraft.symm.trans hdraft')
          have hagree := h.same d hd o' ho' hdraft'
          cases howns with
          | byId hid => simp [← hagree, hid]
          | byTag _ hfree => simp [← hagree, hfree]
        · have htag : o'.tag ≠ o.tag := fun htag => hsame (hkey o' ho' htag)
          have hid : d.id ≠ draftId := by
            rintro rfl
            exact hsame (owner_unique hc ho' ho hdraft' hdraft)
          simp [htag, hid, h.same d hd o' ho' hdraft']

/-! ### What a transaction keeps -/

/-- Created drafts keep their invoices. -/
def Keeps (db db' : Database Row) : Prop := ∀ id invoice, Created db id invoice → Created db' id invoice

theorem Keeps.of_subset (h : ∀ d ∈ db invoiceDrafts, d ∈ db' invoiceDrafts) : Keeps db db' := by
  rintro id invoice ⟨d, hd, hrest⟩
  exact ⟨d, h d hd, hrest⟩

theorem Keeps.of_eq (hdrafts : db' invoiceDrafts = db invoiceDrafts) : Keeps db db' :=
  .of_subset fun _ hd => hdrafts ▸ hd

theorem Keeps.map {f : InvoiceDraftRow → InvoiceDraftRow}
    (hdrafts : db' invoiceDrafts = (db invoiceDrafts).map f) (hid : ∀ d, (f d).id = d.id)
    (hf : ∀ d ∈ db invoiceDrafts, d.status = .created →
      ∀ invoice, d.providerInvoiceId = some invoice →
        (f d).status = .created ∧ (f d).providerInvoiceId = some invoice) : Keeps db db' := by
  rintro id invoice ⟨d, hd, rfl, hstatus, hinvoice⟩
  exact ⟨f d, hdrafts ▸ List.mem_map.mpr ⟨d, hd, rfl⟩, hid d, hf d hd hstatus invoice hinvoice⟩

/-- A transition says created with the invoice, or nothing of an invoice. -/
theorem transitionOf_status {op : InvoiceStoreOp} {t : DraftTransition}
    (h : transitionOf op = some t) :
    (t.status = .created ↔ t.providerInvoiceId ≠ none) ∧
      (t.providerInvoiceId = none → missing op = some t.draftId) := by
  cases op with
  | created result =>
      obtain rfl := Option.some.inj h
      simp [DraftTransition.created]
  | unknownResult result =>
      obtain rfl := Option.some.inj h
      simp [DraftTransition.unknownResult, missing]
  | failed result =>
      obtain rfl := Option.some.inj h
      simp [DraftTransition.failed, missing]
  | reconcile result limits =>
      obtain ⟨invoice, -, rfl⟩ := Option.map_eq_some_iff.mp h
      simp [DraftTransition.created]
  | _ => simp [transitionOf] at h

theorem retryDraft_status (result : DraftFailure) (delay : ℤ) (maxAttempts : ℕ)
    (draft d : InvoiceDraftRow) : (retryDraft result delay maxAttempts draft d).status ≠ .created := by
  simp only [retryDraft]
  split_ifs <;> simp

theorem missDraft_status (limits : ReconcileLimits) (draft : InvoiceDraft) (atTime : ℤ)
    (stored d : InvoiceDraftRow) : (missDraft limits draft atTime stored d).status ≠ .created := by
  simp only [missDraft]
  split_ifs <;> simp

/-- A write that spares created drafts leaves them alone. -/
theorem Keeps.missing {id : DraftId} {assign : InvoiceDraftRow → InvoiceDraftRow}
    (hdrafts : db' invoiceDrafts = assignWhere (fun d : InvoiceDraftRow => d.id == id) assign
      (db invoiceDrafts))
    (hspared : ∀ d ∈ db invoiceDrafts, d.id = id → d.status ≠ .created)
    (hid : ∀ d, (assign d).id = d.id) : Keeps db db' := by
  refine Keeps.map hdrafts (fun d => ?_) fun d hd hstatus invoice hinvoice => ?_
  · split_ifs
    · exact hid d
    · rfl
  · split_ifs with hc
    · exact absurd hstatus (hspared d hd (beq_iff_eq.mp hc))
    · exact ⟨hstatus, hinvoice⟩

/-- The operations of the invoice store that tell the truth and spare created drafts. -/
theorem invoices_keeps (h : Agreed db) (howned : Owned held db) (hone : OneForTag held)
    {op : InvoiceStoreOp} (htrue : Truthful false held db (.invoices op))
    (hspares : Spares db (.store (.invoices op))) :
    Agreed ((StoreOp.invoices op).apply db).2 ∧ Keeps db ((StoreOp.invoices op).apply db).2 := by
  have hc := StoreOp.apply_consistent howned.consistent (.invoices op)
  have hchanged := invoices_changes op db
  unfold InvoicesChangedIn at hchanged
  generalize ((StoreOp.invoices op).apply db).2 = db' at hc hchanged ⊢
  generalize hdrafts' : db' invoiceDrafts = drafts' at hchanged
  generalize howned' : db' ownedInvoices = owned' at hchanged
  cases hchanged with
  | same => exact ⟨h.of_eq hdrafts' howned', .of_eq hdrafts'⟩
  | @saved batchId ds hop =>
      subst hop
      refine ⟨h.saved hc howned.drafts (fun d hd => ?_) hdrafts' howned', .of_subset fun d hd => ?_⟩
      · obtain ⟨draft, hdraft, rfl⟩ := List.mem_map.mp hd
        have hpending := htrue draft (List.mem_filter.mp hdraft).1
        simp [draftRow, hpending]
      · exact hdrafts' ▸ List.mem_append.mpr (.inl hd)
  | @registered draft time hop =>
      exact ⟨h.registered hdrafts' howned', .of_eq hdrafts'⟩
  | bound hop _ =>
      subst hop
      exact absurd htrue.1 (by simp)
  | @transitioned t hop =>
      obtain ⟨hstatus, hmissing⟩ := transitionOf_status hop
      refine ⟨h.transition hstatus hdrafts' howned', Keeps.map hdrafts' (fun d => ?_) ?_⟩
      · split_ifs <;> rfl
      · intro d hd hcreated invoice hinvoice
        split_ifs with hid
        · -- the written invoice carries the tag of the draft, as the old one does
          have hid : d.id = t.draftId := beq_iff_eq.mp hid
          cases hnew : t.providerInvoiceId with
          | none => exact absurd hcreated (hspares t.draftId (hmissing hnew) d hd hid)
          | some id' =>
              obtain ⟨d₀, hd₀, hid₀, hcarries⟩ := htrue.transition hop hnew
              obtain rfl := (howned.consistent invoiceDrafts).eq_of_key hd₀ hd (hid₀.trans hid.symm)
              have hsame := hone.carries hcarries (carries_of_created howned h hd hinvoice)
              exact ⟨hstatus.mpr (by simp [hnew]), hnew.trans (congrArg some hsame)⟩
        · exact ⟨hcreated, hinvoice⟩
  | @retried result delay maxAttempts draft hop =>
      have hspared := hspares result.draftId (by rw [hop]; rfl)
      exact ⟨h.missing hdrafts' howned' hspared (fun _ => rfl) (retryDraft_status _ _ _ _)
        fun _ _ => rfl, .missing hdrafts' hspared fun _ => rfl⟩
  | @missed draft time limits stored hop =>
      have hspared := hspares draft.id (by rw [hop]; rfl)
      exact ⟨h.missing hdrafts' howned' hspared (fun _ => rfl) (missDraft_status _ _ _ _)
        fun _ hnone => hnone, .missing hdrafts' hspared fun _ => rfl⟩

/-- The recording of an event. -/
theorem record_keeps (h : Agreed db) (hc : metadata.Consistent db) (jobId : TransferJobId)
    (r : EventRecord) :
    Agreed ((StoreOp.events (.record jobId r)).apply db).2 ∧
      Keeps db ((StoreOp.events (.record jobId r)).apply db).2 := by
  cases record_changes jobId r hc with
  | untouched hdrafts howned _ => exact ⟨h.of_eq hdrafts howned, .of_eq hdrafts⟩
  | @owned event o _ ho howns hdrafts howned _ =>
      refine ⟨h.credited hc ho howns hdrafts howned, ?_⟩
      unfold createdDrafts at hdrafts
      cases hdraft : o.draftId with
      | none => exact .of_eq (by simpa [hdraft] using hdrafts)
      | some draftId =>
          simp only [hdraft] at hdrafts
          refine Keeps.map hdrafts (fun d => ?_) fun d hd hcreated invoice hinvoice => ?_
          · split_ifs <;> rfl
          · split_ifs with hcond
            · simp only [hinvoice, Bool.and_eq_true, Bool.or_eq_true, beq_iff_eq, reduceCtorEq,
                false_or] at hcond
              exact ⟨rfl, hcond.2.symm⟩
            · exact ⟨hcreated, hinvoice⟩

/-- Every transaction that tells the truth and spares created drafts. -/
theorem store_keeps (h : Agreed db) (howned : Owned held db) (hone : OneForTag held)
    {op : StoreOp} (htrue : Truthful false held db op) (hspares : Spares db (.store op)) :
    Agreed (op.apply db).2 ∧ Keeps db (op.apply db).2 := by
  rcases apply_cases op with ⟨iop, rfl⟩ | ⟨jobId, r, rfl⟩ | hsame
  · exact invoices_keeps h howned hone htrue hspares
  · exact record_keeps h howned.consistent jobId r
  · exact ⟨h.of_eq (hsame db).drafts (hsame db).owners, .of_eq (hsame db).drafts⟩

end

/-! ### The system -/

/-- A new invoice has a new id and no tag of another one. -/
def Fresh (held : List HeldInvoice) (request : InvoiceRequest) (id : InvoiceId) : Prop :=
  ∀ x ∈ held, x.id ≠ id ∧ ∀ tag ∈ request.tags, tag ∉ x.request.tags

def provider : Provider where
  invoiceCreate w request answer held :=
    InvoiceCreated (Fresh w.invoices request) (fun _ => True) w.invoices request answer held
  invoiceQuery w _ tags answer := InvoiceListed w.invoices tags answer
  transferCreate _ _ _ _ := True
  transferQuery _ _ _ _ := True

/-- Ticks, reconcile passes and deliveries. -/
inductive Admitted (held : List HeldInvoice) : Service Unit → Prop
  | tick (gen : Generators) (cfg : TrialSettings) : Admitted held (tick gen cfg).discard
  | pass (cfg : TrialSettings) (setOrder : List BatchId → List BatchId) :
      Admitted held (reconcileInvoices cfg setOrder).discard
  | delivery (jobId : TransferJobId) (delivery : Delivery) : TrueDelivery held delivery →
      Admitted held (receive jobId delivery).discard

/-- The processes work in turns; `allowed` restricts the calls that may be next. -/
def system (ι : Type) (allowed : Database Row → Call → Prop) :
    System ι Call Call.Answer Failure Unit World where
  admits _ w _ p := Admitted w.invoices p
  exec _ w _ call r w' := Performs provider (fun _ => True) w call r w' ∧ allowed w.db call
  drift _ w w' := Reordered w.db w'.db ∧ (∀ x ∈ w.invoices, x ∈ w'.invoices) ∧
    UniqueIds w'.invoices ∧ OneForTag w'.invoices
  dies _ w _ w' := w' = w

def protocol (ι : Type) : Protocol ι Call Call.Answer Failure Unit World where
  toSystem := system ι Spares
  inv _ w := Inv w
  rely _ _ w _ w' := InvoicesKept w w'
  demand _ call _ w := TruthfulCall false w call

theorem OneForTag.append {held : List HeldInvoice} (h : OneForTag held) {x : HeldInvoice}
    (hfresh : Fresh held x.request x.id) : OneForTag (held ++ [x]) := by
  intro a ha b hb tag hta htb
  rcases List.mem_append.mp ha with ha | ha <;> rcases List.mem_append.mp hb with hb | hb
  · exact h a ha b hb tag hta htb
  · rw [List.mem_singleton.mp hb] at htb
    exact absurd hta ((hfresh a ha).2 tag htb)
  · rw [List.mem_singleton.mp ha] at hta
    exact absurd htb ((hfresh b hb).2 tag hta)
  · rw [List.mem_singleton.mp ha, List.mem_singleton.mp hb]

/-- A lost answer may be any error. -/
theorem created_mono {w : World} {request : InvoiceRequest} {answer : SdkAnswer SdkInvoice}
    {held : List HeldInvoice} (h : provider.invoiceCreate w request answer held) :
    ∃ lost, InvoiceCreated (fun id => ∀ x ∈ w.invoices, x.id ≠ id) lost w.invoices request
      answer held := by
  refine ⟨fun _ => True, ?_⟩
  cases h with
  | failed hno => exact .failed hno
  | created hfresh => exact .created fun x hx => (hfresh x hx).1
  | ambiguous hfresh hno hlost => exact .ambiguous (fun x hx => (hfresh x hx).1) hno hlost

/-- One call that tells the truth and spares created drafts. -/
theorem Inv.performs {w w' : World} (h : Inv w) {call : Call} {r : call.Answer}
    (htrue : TruthfulCall false w call)
    (hp : Performs provider (fun _ => True) w call r w') (hspares : Spares w.db call) :
    Inv w' ∧ Keeps w.db w'.db := by
  obtain ⟨howned, hunique⟩ := h.owned.performs h.unique (fun _ _ _ _ => created_mono) htrue hp
  have hrest : (Agreed w'.db ∧ Keeps w.db w'.db) ∧ OneForTag w'.invoices := by
    cases call with
    | now =>
        obtain ⟨-, rfl⟩ := hp
        exact ⟨⟨h.agreed, .of_eq rfl⟩, h.oneForTag⟩
    | store op =>
        obtain ⟨-, rfl⟩ := hp
        exact ⟨store_keeps h.agreed h.owned h.oneForTag htrue hspares, h.oneForTag⟩
    | invoiceCreate request =>
        obtain ⟨held, hcreate, rfl⟩ := hp
        refine ⟨⟨h.agreed, .of_eq rfl⟩, ?_⟩
        rcases InvoiceCreated.added hcreate with hsame | ⟨id, hfresh, hadded⟩
        · exact hsame ▸ h.oneForTag
        · exact hadded ▸ h.oneForTag.append hfresh
    | invoiceQuery limit tags =>
        obtain ⟨-, rfl⟩ := hp
        exact ⟨⟨h.agreed, .of_eq rfl⟩, h.oneForTag⟩
    | transferCreate request =>
        obtain ⟨held, -, rfl⟩ := hp
        exact ⟨⟨h.agreed, .of_eq rfl⟩, h.oneForTag⟩
    | transferQuery limit tags =>
        obtain ⟨-, rfl⟩ := hp
        exact ⟨⟨h.agreed, .of_eq rfl⟩, h.oneForTag⟩
  exact ⟨⟨howned, hrest.1.1, hunique, hrest.2⟩, hrest.1.2⟩

section
variable {ι : Type}

theorem sound : (protocol ι).Sound where
  rely_refl _ _ w := .refl w
  rely_trans _ _ _ _ _ _ _ h h' := h.trans h'
  drift_keeps := by
    rintro l w w' h ⟨hdb, hsub, hunique, hone⟩
    refine ⟨⟨(h.owned.reordered hdb).mono hsub, h.agreed.reordered hdb, hunique, hone⟩, fun _ => ?_⟩
    exact ⟨fun d hd => ⟨d, hdb.mem.mpr hd, .refl d⟩, hsub⟩
  dies_keeps := by
    rintro l w i w' h rfl
    exact ⟨h, fun _ _ => .refl w'⟩

theorem viewed (i : ι) : Viewed (protocol ι) i id provider false where
  created _ _ _ _ h := ⟨_, _, h⟩
  listed _ _ _ _ h := h
  relied _ _ _ _ h := h
  demand _ _ _ _ htrue := htrue
  consistent _ _ h := h.owned.consistent
  performs _ _ _ _ _ h := h.1
  keeps := by
    rintro l w call r w' h htrue ⟨hp, hspares⟩
    refine ⟨(h.performs htrue hp hspares).1, fun _ _ => ?_⟩
    exact performs_invoicesKept hp h.owned.consistent fun _ _ _ _ hc => ⟨_, _, hc⟩

theorem kept : (protocol ι).Kept Unconditionally fun _ => Anything where
  toSound := sound
  begins := by
    rintro l w i p - - hadmitted
    have hv := viewed i
    cases hadmitted with
    | tick gen cfg =>
        exact discard_ensures sound ((hv.tickRules gen cfg).tick_ensures sound trivial)
    | pass cfg setOrder =>
        exact discard_ensures sound
          ((hv.passRules cfg).reconcileInvoices_ensures sound setOrder trivial)
    | delivery jobId delivery htrue =>
        exact discard_ensures sound ((hv.deliveryRules jobId delivery).receive_ensures htrue)

/-! ### Every interleaving -/

/-- Created drafts keep their invoices, and their owned rows stay bound. -/
structure Stays (db db' : Database Row) : Prop where
  created : ∀ id invoice, Created db id invoice → Created db' id invoice
  bound : ∀ id invoice, Created db id invoice → Bound db' id invoice

/-- When no write of a result without an invoice lands on a created draft, whatever is
created at some point of a run stays created and bound until its end. -/
theorem created_stays [DecidableEq ι] {w : World} (hw : Inv w)
    {c d : Config ι Call Call.Answer Failure Unit World}
    (hc : Runs (system ι Spares) (.initial w) c) (hd : Runs (system ι Spares) c d) :
    Stays c.state.db d.state.db := by
  have hkeeps : Keeps c.state.db d.state.db := by
    refine kept.rel hw (fun s t => Keeps s.db t.db) (fun _ _ _ h => h)
      (fun _ _ _ h h' id invoice hcreated => h' id invoice (h id invoice hcreated)) ?_ ?_ ?_ hc hd
    · rintro l s i call r t hs htrue ⟨hp, hspares⟩
      exact (hs.performs htrue hp hspares).2
    · rintro l s t - ⟨hdb, -⟩
      exact .of_subset fun d hd => hdb.mem.mpr hd
    · rintro l s i t - rfl
      exact .of_eq rfl
  have hinv : Inv d.state := kept.inv hw (hc.trans hd)
  exact ⟨hkeeps, fun id invoice h => hinv.agreed.bound (hkeeps id invoice h)⟩

end

/-! ### A credit that arrives while its draft is issued -/

instance (db : Database Row) (call : Call) : Decidable (Spares db call) := by
  unfold Spares
  split <;> infer_instance

/-- Every call may be next, or only those that spare created drafts. -/
def freely : ScriptRules ℕ where
  invoice := freshTag

def sparing : ScriptRules ℕ where
  allowed _ w _ call := decide (Spares w.db call)
  invoice := freshTag

theorem fresh_of_freshTag {held : List HeldInvoice} {request : InvoiceRequest} {id : InvoiceId}
    (h : freshTag held request id = true) : Fresh held request id := by
  intro x hx
  have hboth := List.all_eq_true.mp h x hx
  simp only [Bool.and_eq_true, bne_iff_ne, Bool.not_eq_true', List.any_eq_false] at hboth
  refine ⟨hboth.1, fun tag htag hin => ?_⟩
  exact hboth.2 tag hin (by simpa using htag)

theorem honestInvoices {rules : ScriptRules ℕ} (h : rules.invoice = freshTag) :
    HonestInvoices rules provider := by
  refine .of_created Fresh (fun _ => True) (fun _ _ _ _ h => h) (fun held request id hid => ?_)
    (fun _ _ => trivial) (fun _ _ _ => listedInvoices_listed _ _ _) fun _ _ _ _ => ?_
  · exact fresh_of_freshTag (h ▸ hid)
  · simp [provider, InvoiceListed]

theorem honestTransfers (rules : ScriptRules ℕ) : HonestTransfers rules provider :=
  .of_any (fun _ _ _ _ => trivial) fun _ _ _ _ => trivial

/-- The first draft is issued as the script says, and the credit is received before the
tick writes what it knows. -/
def credited (issued : Script) : List (ScriptedMove ℕ) :=
  [.begin 0 (tick plainGenerators {}).discard, .call 0 (.clock 0), .call 0 .commit,
    .call 0 .commit, .call 0 .commit, .call 0 issued,
    .begin 1 (receive "j" draftDelivery).discard fun _ w => TrueEvent w.invoices draftCredit,
    .call 1 (.clock 1), .call 1 .commit]

theorem credited_allowed (issued : Script) (allowed : Database Row → Call → Prop) :
    ∀ m ∈ credited issued, m.Allowed (system ℕ allowed) := by
  have htick : ∀ held, Admitted held (tick plainGenerators {}).discard := fun _ => .tick _ _
  have hdelivery : ∀ held, TrueEvent held draftCredit →
      Admitted held (receive "j" draftDelivery).discard := fun _ htrue => .delivery _ _ htrue
  simp +contextual [credited, Move.Allowed, system, htick, hdelivery]

theorem scheduled_inv : Inv scheduledWorld where
  owned := .of_empty (by decide) rfl rfl _
  agreed := ⟨by decide, by decide, by decide⟩
  unique := by simp [UniqueIds, scheduledWorld]
  oneForTag := by simp [OneForTag, scheduledWorld]

/-- Both parts of a run: up to the credit, and the next transaction of the tick. -/
theorem credited_runs (rules : ScriptRules ℕ) (hrules : rules.invoice = freshTag)
    (allowed : Database Row → Call → Prop)
    (hallowed : ∀ l w i call, rules.allowed l w i call = true → allowed w.db call)
    (issued : Script) (value : Bool)
    (h : ((playScript rules scheduledWorld (credited issued)).bind fun c =>
      (playAll (answer rules) c [.call 0 .commit]).map fun d =>
        (decide (Created c.state.db "b:draft:0" "i"),
          decide (Created d.state.db "b:draft:0" "i"))) = some (true, value)) :
    ∃ c d, Runs (system ℕ allowed) (.initial scheduledWorld) c ∧
      Runs (system ℕ allowed) c d ∧ Created c.state.db "b:draft:0" "i" ∧
      decide (Created d.state.db "b:draft:0" "i") = value := by
  have hsys : ∀ l w i call r w', rules.allowed l w i call = true →
      Performs provider (fun t => rules.clock l w i t = true) w call r w' →
      (system ℕ allowed).exec l w i call r w' :=
    fun l w i call r w' ha hp => ⟨hp.mono fun _ _ => trivial, hallowed l w i call ha⟩
  have hi := honestInvoices hrules
  have ht := honestTransfers rules
  obtain ⟨c, hplay, hrest⟩ := Option.bind_eq_some_iff.mp h
  obtain ⟨d, hnext, hends⟩ := Option.map_eq_some_iff.mp hrest
  obtain ⟨hcreated, hvalue⟩ := Prod.mk.inj hends
  exact ⟨c, d, playScript_runs hi ht hsys (credited_allowed issued allowed) hplay,
    answer_runs hi ht hsys (by simp [Move.Allowed]) hnext, of_decide_eq_true hcreated, hvalue⟩

theorem created_stays_credited : ∃ c d : Config ℕ Call Call.Answer Failure Unit World,
    Created c.state.db "b:draft:0" "i" ∧ Stays c.state.db d.state.db := by
  obtain ⟨c, d, hc, hd, hcreated, -⟩ := credited_runs sparing rfl Spares
    (fun l w i call h => of_decide_eq_true h) (.created "i") true (by decide)
  exact ⟨c, d, hcreated, created_stays scheduled_inv hc hd⟩

/-- Without the restriction a binding is undone: the answer to a creation is lost, the
credit of the invoice is received, and the tick says that the result is unknown. -/
theorem created_undone : ∃ c d : Config ℕ Call Call.Answer Failure Unit World,
    Inv scheduledWorld ∧ Runs (system ℕ fun _ _ => True) (.initial scheduledWorld) c ∧
      Runs (system ℕ fun _ _ => True) c d ∧ ¬ Stays c.state.db d.state.db := by
  obtain ⟨c, d, hc, hd, hcreated, hundone⟩ := credited_runs freely rfl
    (fun _ _ => True) (fun _ _ _ _ _ => trivial) (.lost "i" .unknownError) false (by decide)
  refine ⟨c, d, scheduled_inv, hc, hd, fun hstays => ?_⟩
  exact of_decide_eq_false hundone (hstays.created _ _ hcreated)

end StarkbankTrial.CreatedDrafts
