import StarkbankTrial.RecordOutline
import Mathlib.Data.Fintype.Basic

/-!
# Invoices that share a tag

Two recordings may both find the owner of a tag unbound and both bind it. The second binding
waits for the first one to be committed and then writes nothing, and its recording goes on
as if it had bound the owner. As long as no binding comes too late, at most one invoice that
carries the tag gets a job, and the tag is bound to it.
-/
namespace StarkbankTrial.SharedTags
open Domain InteractivePrograms InterleavedRuns RelationalTables RowVersions ReadCommitted
open DatabaseSchema EventRecording RecordOutline
open DatabaseSchema.Table

section
variable {ι : Type} [DecidableEq ι]

/-- The events of the invoice carry the tag. -/
def Carries (deliveries : ι → Delivery) (tag : String) (x : InvoiceId) : Prop :=
  (∃ i, (deliveries i).event.invoiceId = x) ∧
    ∀ i, (deliveries i).event.invoiceId = x → tag ∈ (deliveries i).event.tags

def Bound (tag : String) (x : InvoiceId) (db : Database Row) : Prop :=
  ∃ o ∈ db ownedInvoices, o.tag = tag ∧ o.providerInvoiceId = some x

structure OneInvoice (deliveries : ι → Delivery) (tag : String) (db : Database Row) : Prop where
  one : ∀ j ∈ db transferJobs, ∀ j' ∈ db transferJobs, Carries deliveries tag j.invoiceId →
    Carries deliveries tag j'.invoiceId → j.invoiceId = j'.invoiceId
  bound : ∀ j ∈ db transferJobs, Carries deliveries tag j.invoiceId → Bound tag j.invoiceId db

def bindsOwner : SessionOp Row → Bool
  | .statement (.update ownedInvoices _ _) => true
  | _ => false

/-- When a recording binds the owner of its tag, no other invoice is bound to it yet. -/
def BindsInTime (deliveries : ι → Delivery) (_ : Log ι (SessionOp Row) SessionOp.Answer) (i : ι)
    (op : SessionOp Row) (s : Versions ι Row) : Prop :=
  bindsOwner op = true → ∀ o ∈ view i s ownedInvoices, o.tag ∈ (deliveries i).event.tags →
    o.providerInvoiceId = none ∨ o.providerInvoiceId = some (deliveries i).event.invoiceId

instance (deliveries : ι → Delivery) (l : Log ι (SessionOp Row) SessionOp.Answer) (i : ι)
    (op : SessionOp Row) (s : Versions ι Row) : Decidable (BindsInTime deliveries l i op s) :=
  inferInstanceAs (Decidable (_ → _))

/-! ### The invariant -/

/-- An owner is written only to bind it, and jobs are only added. -/
def ownerBindings (deliveries : ι → Delivery) : RowInvariant ι Row where
  version _ _ := True
  pending
    | .ownedInvoices, k, c, r => ∃ o : OwnedInvoiceRow, c = some o ∧ o.providerInvoiceId = none ∧
        r.tag = o.tag ∧ r.providerInvoiceId = some (deliveries k).event.invoiceId
    | .transferJobs, k, c, r => c = none ∧ r.invoiceId = (deliveries k).event.invoiceId
    | _, _, _, _ => True

structure Inv (deliveries : ι → Delivery) (tag : String)
    (_ : Log ι (SessionOp Row) SessionOp.Answer) (s : Versions ι Row) : Prop where
  coherent : Coherent metadata s
  bindings : (ownerBindings deliveries).Holds s
  owned : ∃ o ∈ committedRows s ownedInvoices, o.tag = tag
  writing : ∀ i, tag ∈ (deliveries i).event.tags → written i s transferJobs ≠ [] →
    Bound tag (deliveries i).event.invoiceId (view i s)
  jobs : ∀ j ∈ committedRows s transferJobs, Carries deliveries tag j.invoiceId →
    Bound tag j.invoiceId (committedRows s)

variable {deliveries : ι → Delivery} {tag tag' : String} {x : InvoiceId} {i j : ι}
variable {l l' : Log ι (SessionOp Row) SessionOp.Answer} {s s' : Versions ι Row}

omit [DecidableEq ι] in
/-- An owner that is bound is not written any more. -/
theorem bound_lasts (h : (ownerBindings deliveries).Holds s) {o : OwnedInvoiceRow}
    (hbound : o.providerInvoiceId = some x) :
    ∀ c ∈ s ownedInvoices, c.committed = some o → c.pending = none := by
  refine h.lasts fun k q hq => ?_
  obtain ⟨o', ho', hnone, -⟩ := hq
  obtain rfl := Option.some.inj ho'
  rw [hbound] at hnone
  cases hnone

theorem bound_view {op : SessionOp Row} {r : op.Answer} (h : (ownerBindings deliveries).Holds s)
    (hop : perform metadata j op s = some (r, s')) (hj : j ≠ i)
    (hbound : Bound tag' x (view i s)) : Bound tag' x (view i s') := by
  obtain ⟨o, ho, htag, hid⟩ := hbound
  exact ⟨o, perform_mem_view hop hj ho (bound_lasts h hid), htag, hid⟩

theorem bound_committed {op : SessionOp Row} {r : op.Answer} (h : (ownerBindings deliveries).Holds s)
    (hop : perform metadata j op s = some (r, s'))
    (hbound : Bound tag' x (committedRows s)) : Bound tag' x (committedRows s') := by
  obtain ⟨o, ho, htag, hid⟩ := hbound
  exact ⟨o, perform_mem_committed hop ho (bound_lasts h hid), htag, hid⟩

/-- Every session sees the owner of a committed tag. -/
theorem owner_in_view (h : (ownerBindings deliveries).Holds s)
    (howned : ∃ o ∈ committedRows s ownedInvoices, o.tag = tag) (i : ι) :
    ∃ o ∈ view i s ownedInvoices, o.tag = tag := by
  obtain ⟨o, ho, htag⟩ := howned
  obtain ⟨c, hc, hcommitted⟩ := List.mem_filterMap.mp ho
  cases hown : c.own i with
  | none => exact ⟨o, List.mem_filterMap.mpr ⟨c, hc, by simp [Slot.visible, hown, hcommitted]⟩, htag⟩
  | some r =>
      obtain ⟨o', ho', -, htag', -⟩ := h.pending ownedInvoices c hc i r (Slot.own_eq_some.mp hown)
      obtain rfl := Option.some.inj (hcommitted.symm.trans ho')
      exact ⟨r, List.mem_filterMap.mpr ⟨c, hc, by simp [Slot.visible, hown]⟩, htag'.trans htag⟩

/-- A step keeps the invariant when it writes only what it may, and a session that then has
a job has bound the tag. -/
theorem Inv.perform (h : Inv deliveries tag l s) {op : SessionOp Row} {r : op.Answer}
    (hop : perform metadata i op s = some (r, s'))
    (hpermits : ∀ st, op = .statement st → (ownerBindings deliveries).Permits i s st)
    (hwriting : ∀ st, op = .statement st → tag ∈ (deliveries i).event.tags →
      written i s' transferJobs ≠ [] → Bound tag (deliveries i).event.invoiceId (view i s')) :
    Inv deliveries tag l' s' where
  coherent := perform_coherent h.coherent hop
  bindings := perform_holds h.bindings hpermits hop
  owned := by
    cases op with
    | statement st =>
        rw [execute_committed hop]
        exact h.owned
    | commit =>
        obtain ⟨-, rfl⟩ := Prod.mk.inj (Option.some.inj hop)
        rw [committedRows_commit]
        exact owner_in_view h.bindings h.owned i
    | rollback =>
        obtain ⟨-, rfl⟩ := Prod.mk.inj (Option.some.inj hop)
        rw [committedRows_rollback]
        exact h.owned
  writing k htags hjobs := by
    by_cases hk : i = k
    · subst hk
      cases op with
      | statement st => exact hwriting st rfl htags hjobs
      | commit =>
          obtain ⟨-, rfl⟩ := Prod.mk.inj (Option.some.inj hop)
          exact absurd (congrFun written_commit_self _) hjobs
      | rollback =>
          obtain ⟨-, rfl⟩ := Prod.mk.inj (Option.some.inj hop)
          exact absurd (congrFun written_rollback_self _) hjobs
    · rw [perform_written hop hk] at hjobs
      exact bound_view h.bindings hop hk (h.writing k htags hjobs)
  jobs j hj hcarries := by
    rcases perform_of_committed hop hj with hold | ⟨rfl, hwritten⟩
    · exact bound_committed h.bindings hop (h.jobs j hold hcarries)
    · obtain ⟨-, rfl⟩ := Prod.mk.inj (Option.some.inj hop)
      obtain ⟨c, hc, hown⟩ := List.mem_filterMap.mp hwritten
      obtain ⟨-, hid⟩ := h.bindings.pending transferJobs c hc i j (Slot.own_eq_some.mp hown)
      rw [committedRows_commit, hid]
      exact h.writing i (hcarries.2 i hid.symm) (List.ne_nil_of_mem hwritten)

/-! ### The statements of one recording -/

/-- The protocol of the recordings that bind in time. -/
abbrev inTime (deliveries : ι → Delivery) (tag : String) :
    Protocol ι (SessionOp Row) SessionOp.Answer StoreError EventWriteResult (Versions ι Row) :=
  protocol metadata (fun i => (deliveries i).txn) (BindsInTime deliveries) (Inv deliveries tag)
    fun _ _ _ _ => True

/-- The tag, if the event carries it, is bound to the invoice of the event. -/
def Ready (deliveries : ι → Delivery) (tag : String) (i : ι) : Fact ι Row := fun _ s =>
  tag ∈ (deliveries i).event.tags → Bound tag (deliveries i).event.invoiceId (view i s)

theorem persists_bound :
    Persists metadata (Inv deliveries tag) i fun _ s => Bound tag' x (view i s) := by
  intro l s l' s' hbound hstep
  obtain ⟨j, hj, op, r, hop, -⟩ := hstep.step
  exact bound_view hstep.before.bindings hop hj hbound

theorem persists_ready : Persists metadata (Inv deliveries tag) i (Ready deliveries tag i) :=
  .imp fun _ => persists_bound

/-- A statement that reads, or writes neither owners nor jobs. -/
def Passive (st : Statement Row) : Prop := Leaves st ownedInvoices ∧ Leaves st transferJobs

theorem passive_select {t : Table} {condition : Row t → Bool} :
    Passive (.select t condition) := ⟨.inl ⟨_, _, rfl⟩, .inl ⟨_, _, rfl⟩⟩

theorem passive_of_ne {st : Statement Row} (howned : ownedInvoices ≠ tableOf st)
    (hjobs : transferJobs ≠ tableOf st) : Passive st := ⟨.inr howned, .inr hjobs⟩

theorem bound_congr (h : s' ownedInvoices = s ownedInvoices) :
    Bound tag' x (view i s') ↔ Bound tag' x (view i s) := by
  simp only [Bound, view_congr h]

theorem passive_triple {st : Statement Row} {fact : Fact ι Row} {result : st.Answer → Fact ι Row}
    (hst : Passive st) (hpermits : ∀ s, (ownerBindings deliveries).Permits i s st)
    (hpersists : Persists metadata (Inv deliveries tag) i fact)
    (hresult : ∀ l s r s', Inv deliveries tag l s → fact l s →
      execute metadata i st s = some (r, s') → s' ownedInvoices = s ownedInvoices →
      result r (⟨i, .statement st, r⟩ :: l) s') :
    (inTime deliveries tag).Triple i fact (.statement st) result := by
  refine triple hpersists (fun _ _ _ _ => trivial) fun l s r s' hinv hfact _ hop => ?_
  have howned : s' ownedInvoices = s ownedInvoices := execute_leaves hst.1 hop
  have hjobs : s' transferJobs = s transferJobs := execute_leaves hst.2 hop
  refine ⟨hinv.perform hop (fun st' heq => ?_) fun st' _ htags hwritten => ?_,
    hresult l s r s' hinv hfact hop howned⟩
  · obtain rfl := SessionOp.statement.inj heq
    exact hpermits s
  · rw [bound_congr howned]
    refine hinv.writing i htags fun hnone => hwritten ?_
    exact (written_congr hjobs).trans hnone

theorem insertEvent_permits {d : Delivery} (s : Versions ι Row) :
    (ownerBindings deliveries).Permits i s d.insertEvent := fun _ _ => ⟨trivial, trivial⟩

theorem createDraft_permits {d : Delivery} (draftId : DraftId) (s : Versions ι Row) :
    (ownerBindings deliveries).Permits i s (d.createDraft draftId) :=
  fun _ _ _ _ _ _ => ⟨trivial, trivial⟩

theorem mark_permits {d : Delivery} (outcome : EventWriteResult) (s : Versions ι Row) :
    (ownerBindings deliveries).Permits i s (d.mark outcome) :=
  fun _ _ _ _ _ _ => ⟨trivial, trivial⟩

theorem insertEvent_passive {d : Delivery} : Passive d.insertEvent :=
  passive_of_ne (by simp [tableOf]) (by simp [tableOf])

theorem createDraft_passive {d : Delivery} {draftId : DraftId} :
    Passive (d.createDraft draftId) :=
  passive_of_ne (by simp [tableOf]) (by simp [tableOf])

theorem mark_passive (outcome : EventWriteResult) {d : Delivery} : Passive (d.mark outcome) :=
  passive_of_ne (by simp [tableOf]) (by simp [tableOf])

/-- An owner that is bound keeps its invoice when the session binds owners. -/
theorem bound_bindOwner {d : Delivery} {owner : OwnedInvoiceRow} {r : Option ℕ}
    (he : execute metadata i (d.bindOwner owner) s = some (r, s'))
    (h : Bound tag' x (view i s)) : Bound tag' x (view i s') := by
  rcases execute_update he with ⟨-, rfl⟩ | hupdated
  · exact h
  · obtain ⟨o, ho, htag, hid⟩ := h
    refine ⟨o, ?_, htag, hid⟩
    rw [hupdated.view_eq]
    exact mem_assignWhere.mpr (.inr ⟨ho, by simp [hid]⟩)

theorem bindOwner_permits (h : (ownerBindings deliveries).Holds s) (owner : OwnedInvoiceRow) :
    (ownerBindings deliveries).Permits i s ((deliveries i).bindOwner owner) := by
  intro c hc hfree r hr hcondition
  have hnone : r.providerInvoiceId = none := by
    simpa using (Bool.and_eq_true_iff.mp hcondition).2
  refine ⟨trivial, ?_⟩
  rcases Slot.visible_eq_some.mp hr with hpending | ⟨hcommitted, -⟩
  · obtain ⟨o, -, -, -, hbound⟩ := h.pending ownedInvoices c hc i r hpending
    rw [hnone] at hbound
    cases hbound
  · exact ⟨r, hcommitted, hnone, rfl, rfl⟩

theorem bindOwner_triple (owner : OwnedInvoiceRow) :
    (inTime deliveries tag).Triple i
      (fun _ _ => tag ∈ (deliveries i).event.tags → owner.tag = tag)
      (.statement ((deliveries i).bindOwner owner)) fun bound l s => (bound = none → True) ∧
        (bound ≠ none → Ready deliveries tag i l s) := by
  refine triple persists_const (fun _ _ _ _ => trivial) fun l s r s' hinv hfact hmeets hop => ?_
  have hexecute : execute metadata i ((deliveries i).bindOwner owner) s = some (r, s') := hop
  have hjobs : s' transferJobs = s transferJobs := execute_frame hexecute (by simp [tableOf])
  refine ⟨hinv.perform hop (fun st' heq => ?_) fun st' _ htags hwritten => ?_,
    fun _ => trivial, fun hr htags => ?_⟩
  · obtain rfl := SessionOp.statement.inj heq
    exact bindOwner_permits hinv.bindings owner
  · refine bound_bindOwner hop (hinv.writing i htags fun hnone => hwritten ?_)
    exact (written_congr hjobs).trans hnone
  · obtain ⟨o, ho, htag⟩ := owner_in_view hinv.bindings hinv.owned i
    -- here it matters that the owner is still unbound, or bound to the same invoice
    rcases hmeets rfl o ho (htag ▸ htags) with hnone | hown
    · rcases execute_update hop with ⟨hnot, -⟩ | hupdated
      · exact absurd hnot hr
      · refine ⟨{ o with
          providerInvoiceId := some (deliveries i).event.invoiceId
          updatedAt := (deliveries i).receivedAt }, ?_, htag, rfl⟩
        rw [hupdated.view_eq]
        exact mem_assignWhere.mpr (.inl ⟨o, ho, by simp [hnone, htag, hfact htags], rfl⟩)
    · exact bound_bindOwner hop ⟨o, ho, htag, hown⟩

theorem insertJob_triple (net : ℤ) : (inTime deliveries tag).Triple i
    (Ready deliveries tag i) (.statement ((deliveries i).insertJob net))
      fun _ _ _ => True := by
  refine triple persists_ready (fun _ _ _ _ => trivial) fun l s r s' hinv hfact _ hop => ?_
  have hexecute : execute metadata i ((deliveries i).insertJob net) s = some (r, s') := hop
  have howned : s' ownedInvoices = s ownedInvoices := execute_frame hexecute (by simp [tableOf])
  refine ⟨hinv.perform hop (fun st' heq => ?_) fun st' _ htags _ => ?_, trivial⟩
  · obtain rfl := SessionOp.statement.inj heq
    intro r hr
    obtain rfl := List.mem_singleton.mp hr
    exact ⟨trivial, rfl, rfl⟩
  · exact (bound_congr howned).mpr (hfact htags)

/-- A statement after which nothing is to be known. -/
theorem idle_triple {st : Statement Row} {fact : Fact ι Row} (hst : Passive st)
    (hpermits : ∀ s, (ownerBindings deliveries).Permits i s st)
    (hpersists : Persists metadata (Inv deliveries tag) i fact) :
    (inTime deliveries tag).Triple i fact (.statement st) fun _ _ _ => True :=
  passive_triple hst hpermits hpersists fun _ _ _ _ _ _ _ _ => trivial

/-- What is true of the owners that a session sees, and read, is still true. -/
theorem ready_triple {st : Statement Row} (hst : Passive st)
    (hpermits : ∀ s, (ownerBindings deliveries).Permits i s st) :
    (inTime deliveries tag).Triple i (Ready deliveries tag i) (.statement st)
      fun _ => Ready deliveries tag i :=
  passive_triple hst hpermits persists_ready fun _ _ _ _ _ hready _ howned htags =>
    (bound_congr howned).mpr (hready htags)

theorem mark_triple (outcome : EventWriteResult) : (inTime deliveries tag).Triple i
    (fun _ _ => True) (.statement ((deliveries i).mark outcome)) fun _ _ _ => True :=
  idle_triple (mark_passive outcome) (mark_permits outcome) persists_const

/-- Nothing is to be bound for an event without tags. -/
theorem ready_of_untagged (huntagged : (deliveries i).event.tags = []) :
    Ready deliveries tag i l s := by
  intro htags
  rw [huntagged] at htags
  cases htags

theorem selectOwner_triple : (inTime deliveries tag).Triple i (fun _ _ => True)
    (.statement (deliveries i).selectOwner) fun rows _ s => ∀ owner ∈ rows.head?,
      Bound owner.tag (deliveries i).event.invoiceId (view i s) := by
  refine passive_triple passive_select (fun _ => trivial) persists_const
    fun l s rows s' _ _ he _ owner howner => ?_
  obtain ⟨hrows, rfl⟩ := Prod.mk.inj (Option.some.inj he)
  have hmem := List.mem_of_mem_head? howner
  rw [← hrows] at hmem
  obtain ⟨hview, hid⟩ := List.mem_filter.mp hmem
  exact ⟨owner, hview, rfl, by simpa using hid⟩

/-- The only owner whose tag is on the event is the owner of the tag, if the event carries it. -/
theorem selectByTags_triple : (inTime deliveries tag).Triple i (fun _ _ => True)
    (.statement (deliveries i).selectByTags) fun rows _ _ => ∀ owner, rows.take 2 = [owner] →
      tag ∈ (deliveries i).event.tags → owner.tag = tag := by
  refine passive_triple passive_select (fun _ => trivial) persists_const
    fun l s rows s' hinv _ he _ owner hrows htags => ?_
  obtain ⟨hselected, rfl⟩ := Prod.mk.inj (Option.some.inj he)
  obtain ⟨o, ho, htag⟩ := owner_in_view hinv.bindings hinv.owned i
  have hmem : o ∈ rows := by
    rw [← hselected]
    exact List.mem_filter.mpr ⟨ho, by simpa [htag] using htags⟩
  rw [take_two_eq_singleton.mp hrows] at hmem
  exact List.mem_singleton.mp hmem ▸ htag

theorem selectTagMatches_triple (owner : OwnedInvoiceRow) : (inTime deliveries tag).Triple i
    (fun _ s => Bound owner.tag (deliveries i).event.invoiceId (view i s))
    (.statement (deliveries i).selectTagMatches) fun rows l s =>
      (∀ o ∈ rows, o.tag = owner.tag) → Ready deliveries tag i l s := by
  refine passive_triple passive_select (fun _ => trivial) persists_bound
    fun l s rows s' hinv hbound he _ hmatches htags => ?_
  obtain ⟨hselected, rfl⟩ := Prod.mk.inj (Option.some.inj he)
  obtain ⟨o, ho, htag⟩ := owner_in_view hinv.bindings hinv.owned i
  have hmem : o ∈ rows := by
    rw [← hselected]
    exact List.mem_filter.mpr ⟨ho, by simpa [htag] using htags⟩
  rw [← htag, hmatches o hmem]
  exact hbound

/-! ### One recording -/

omit [DecidableEq ι] in
/-- What a recording returns says nothing here. -/
theorem result_claims_nothing (_ : Log ι (SessionOp Row) SessionOp.Answer) (_ : Versions ι Row) :
    (True → True) ∧ (True → True) := ⟨id, id⟩

def outline (deliveries : ι → Delivery) (tag : String) (i : ι) :
    Outline (inTime deliveries tag) i (deliveries i) where
  start _ _ := True
  known _ _ := True
  seek _ _ _ := True
  unbound _ _ _ := True
  selected _ owner _ _ := tag ∈ (deliveries i).event.tags → owner.tag = tag
  matched _ owner _ s := Bound owner.tag (deliveries i).event.invoiceId (view i s)
  owned _ _ := Ready deliveries tag i
  drafted _ := Ready deliveries tag i
  vacant _ := Ready deliveries tag i
  taken _ _ := True
  queued _ _ _ := True
  unowned _ _ _ := True
  result _ _ _ := True
  failed _ _ := True
  result_stable _ := persists_const.stable
  failed_stable := persists_const.stable
  insertEvent := (idle_triple insertEvent_passive insertEvent_permits persists_const).mono
    fun _ _ _ _ => ⟨fun _ => ⟨fun _ => trivial, fun _ => trivial⟩,
      fun _ => ⟨fun _ => trivial, fun _ => trivial⟩⟩
  selectStored := (idle_triple passive_select (fun _ => trivial) persists_const).mono
    fun _ _ _ _ => ⟨fun _ => trivial, fun _ _ _ => trivial⟩
  selectOwner _ := selectOwner_triple.mono fun _ _ _ h => ⟨fun _ => trivial, h⟩
  untagged _ _ _ huntagged :=
    ⟨fun _ => trivial, fun _ _ => ready_of_untagged huntagged⟩
  selectByTags _ := selectByTags_triple.mono fun _ _ _ h =>
    ⟨fun owner hrows _ => h owner hrows, fun _ => trivial⟩
  bindOwner _ := bindOwner_triple
  selectTagMatches _ owner := (selectTagMatches_triple owner).mono fun _ _ _ h =>
    ⟨h, fun _ => trivial⟩
  undrafted _ _ _ _ _ h := h
  createDraft _ _ _ _ := (ready_triple createDraft_passive (createDraft_permits _)).mono
    fun _ _ _ h => ⟨fun _ => trivial, fun _ => h⟩
  selectJobs _ := (ready_triple passive_select fun _ => trivial).mono fun _ _ _ h =>
    ⟨fun _ => h, fun _ => trivial⟩
  insertJob _ net _ := (insertJob_triple net).mono fun _ _ _ _ =>
    ⟨fun _ => trivial, fun _ => trivial⟩
  markDuplicate := (mark_triple _).mono fun _ _ _ _ => ⟨fun _ => trivial, fun _ => trivial⟩
  markUnknown := (mark_triple _).mono fun _ _ _ _ => ⟨fun _ => trivial, fun _ => trivial⟩
  markQueued := (mark_triple _).mono fun _ _ _ _ => ⟨fun _ => trivial, fun _ => trivial⟩
  ends := result_claims_nothing

theorem end_triple {op : SessionOp Row} (hop : op.Ends) :
    (inTime deliveries tag).Triple i (fun _ _ => True) op fun _ _ s => AtRest i s :=
  triple persists_const (fun _ _ _ _ => trivial) fun _ _ _ _ hinv _ _ hperform =>
    ⟨hinv.perform hperform (fun st heq => (hop.ne_statement st heq).elim)
      fun st heq => (hop.ne_statement st heq).elim, perform_ends hop hperform⟩

theorem inTime_kept (deliveries : ι → Delivery) (tag : String) :
    (inTime deliveries tag).Kept (fun i _ s => AtRest i s) fun i _ _ s => AtRest i s := by
  refine kept (fun _ _ _ _ h => h) fun i l s _ _ _ => ?_
  exact session_ensures (fun _ => end_triple (.inl rfl))
    ((end_triple (.inr rfl)).mono fun _ _ _ h _ => h) (fun _ => persists_atRest)
    ((outline deliveries tag i).record_ensures trivial)

/-! ### Over every interleaving -/

theorem Inv.untouched {db : Database Row} (hdb : metadata.Consistent db)
    (howned : ∃ o ∈ db ownedInvoices, o.tag = tag)
    (hjobs : ∀ j ∈ db transferJobs, ¬ Carries deliveries tag j.invoiceId) :
    Inv deliveries tag [] (untouched db : Versions ι Row) where
  coherent := .untouched hdb
  bindings := .untouched fun _ _ _ => trivial
  owned := by
    rw [committedRows_untouched]
    exact howned
  writing i _ hwritten := by
    have hrest : AtRest i (RowVersions.untouched db) := atRest_untouched db
    exact absurd (congrFun hrest transferJobs) hwritten
  jobs j hj hcarries := by
    rw [committedRows_untouched] at hj
    exact absurd hcarries (hjobs j hj)

theorem one_invoice {db : Database Row} (hdb : metadata.Consistent db)
    (howned : ∃ o ∈ db ownedInvoices, o.tag = tag ∧ o.providerInvoiceId = none)
    (hjobs : ∀ j ∈ db transferJobs, ¬ Carries deliveries tag j.invoiceId)
    {c : Config ι (SessionOp Row) SessionOp.Answer StoreError EventWriteResult (Versions ι Row)}
    (h : Runs (restricted (recordings deliveries) (BindsInTime deliveries))
      (.initial (untouched db)) c) : OneInvoice deliveries tag (committedRows c.state) := by
  obtain ⟨o, ho, htag, -⟩ := howned
  have hinv : Inv deliveries tag c.log c.state := (inTime_kept deliveries tag).inv
    (.untouched hdb ⟨o, ho, htag⟩ hjobs) h fun i => atRest_untouched db
  refine ⟨fun j hj j' hj' hcarries hcarries' => ?_, hinv.jobs⟩
  obtain ⟨r, hr, hrtag, hid⟩ := hinv.jobs j hj hcarries
  obtain ⟨r', hr', hrtag', hid'⟩ := hinv.jobs j' hj' hcarries'
  obtain rfl : r = r' := (hinv.coherent.committedRows ownedInvoices).eq_of_key hr hr'
    (hrtag.trans hrtag'.symm)
  exact Option.some.inj (hid.symm.trans hid')

end

/-! ### Two invoices with one tag -/

def sharedOwner : OwnedInvoiceRow where
  tag := "t"
  providerInvoiceId := none
  source := "smoke"
  draftId := none
  createdAt := 0
  updatedAt := 0

def sharedTag : Database Row
  | .ownedInvoices => [sharedOwner]
  | _ => []

theorem sharedTag_consistent : metadata.Consistent sharedTag := by decide

/-- Two credited invoices that carry the tag of the one owner. -/
def twoCredits (i : Fin 2) : Delivery where
  event :=
    { eventId := if i.val = 0 then "e" else "f", invoiceId := if i.val = 0 then "a" else "b"
      amount := 100, fee := 0, workspaceId := "w", tags := ["t"] }
  payloadHash := "h"
  receivedAt := 1
  netAmount := some 100
  jobId := if i.val = 0 then "j" else "k"

/-- Both find the owner unbound before either has bound it. -/
theorem shared_tag_two_jobs :
    ¬ ∀ (deliveries : Fin 2 → Delivery) (tag : String) (db : Database Row),
      metadata.Consistent db →
      (∃ o ∈ db ownedInvoices, o.tag = tag ∧ o.providerInvoiceId = none) →
      (∀ j ∈ db transferJobs, ¬ Carries deliveries tag j.invoiceId) →
      ∀ c, Runs (recordings deliveries) (.initial (untouched db)) c →
        OneInvoice deliveries tag (committedRows c.state) := by
  intro hclaim
  have hends : (playAll (performIf metadata fun _ _ _ _ => True) (.initial (untouched sharedTag))
      (inOrder (fun i => (twoCredits i).txn) [0, 0, 0, 1, 1, 1, 0, 0, 0, 0, 1, 1, 1, 1])).map
      (fun c => (committedRows c.state transferJobs).map TransferJobRow.invoiceId) =
      some ["a", "b"] := by
    decide +kernel
  obtain ⟨c, hplay, hc⟩ := Option.map_eq_some_iff.mp hends
  have hruns : Runs (recordings twoCredits) (.initial (untouched sharedTag)) c :=
    runs_of_restricted (inOrder_runs hplay)
  have hone := hclaim twoCredits "t" sharedTag sharedTag_consistent
    ⟨sharedOwner, by simp [sharedTag], rfl, rfl⟩ (by simp [sharedTag]) c hruns
  have hcarries : ∀ x ∈ ["a", "b"], Carries twoCredits "t" x := by
    simp [Carries, twoCredits]
  have hjob : ∀ x ∈ ["a", "b"], ∃ j ∈ committedRows c.state transferJobs, j.invoiceId = x := by
    intro x hx
    rw [← hc] at hx
    exact List.mem_map.mp hx
  obtain ⟨j, hj, hja⟩ := hjob "a" (by simp)
  obtain ⟨k, hk, hkb⟩ := hjob "b" (by simp)
  have hsame := hone.one j hj k hk (hja ▸ hcarries "a" (by simp)) (hkb ▸ hcarries "b" (by simp))
  rw [hja, hkb] at hsame
  exact absurd hsame (by decide)

/-- The second finds the owner bound when the first is committed before it looks. -/
theorem one_invoice_twoCredits : ∃ c : Config (Fin 2) (SessionOp Row) SessionOp.Answer StoreError
    EventWriteResult (Versions (Fin 2) Row),
    OneInvoice twoCredits "t" (committedRows c.state) ∧
      (committedRows c.state transferJobs).map TransferJobRow.invoiceId = ["a"] := by
  have hends : (playAll (performIf metadata (BindsInTime twoCredits))
      (.initial (untouched sharedTag)) (inOrder (fun i => (twoCredits i).txn)
        [0, 1, 0, 1, 0, 0, 0, 0, 0, 1, 1, 1])).map (fun c =>
          (committedRows c.state transferJobs).map TransferJobRow.invoiceId) = some ["a"] := by
    decide +kernel
  obtain ⟨c, hplay, hc⟩ := Option.map_eq_some_iff.mp hends
  exact ⟨c, one_invoice sharedTag_consistent ⟨sharedOwner, by simp [sharedTag], rfl, rfl⟩
    (by simp [sharedTag]) (inOrder_runs hplay), hc⟩

end StarkbankTrial.SharedTags
