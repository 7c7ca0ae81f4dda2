import StarkbankTrial.EventJobCorrespondence
import StarkbankTrial.RecordOutline

/-!
# Concurrent deliveries of one invoice

Any number of recordings of events of one invoice run at once. Every recording loses a race
by seeing, sooner or later, the committed row of a winner: the stored event of its own id, or
the job of the invoice. So when all have committed there is one job and one winner.
-/
namespace StarkbankTrial.ConcurrentDeliveries
open Domain InteractivePrograms InterleavedRuns RelationalTables RowVersions ReadCommitted
open DatabaseSchema EventRecording EventJobCorrespondence RecordOutline
open DatabaseSchema.Table

section
variable {ι : Type} [DecidableEq ι]

/-- The owner of the invoice: a row that is bound to it, or the one unbound row whose tag all
events carry. No event carries the tag of another row. -/
structure Owner (deliveries : ι → Delivery) (x : InvoiceId) (db : Database Row)
    (o : OwnedInvoiceRow) : Prop where
  mem : o ∈ db ownedInvoices
  found : o.providerInvoiceId = some x ∨ o.providerInvoiceId = none ∧
    (∀ o' ∈ db ownedInvoices, o'.providerInvoiceId ≠ some x) ∧
    ∀ i, o.tag ∈ (deliveries i).event.tags
  only : ∀ i, ∀ o' ∈ db ownedInvoices, o'.tag ∈ (deliveries i).event.tags → o'.tag = o.tag

/-- The credited events of one invoice, as the webhook hands them over, with fresh job ids,
before any of them is stored. The jobs in the database are from stored events, as the stores
keep them. -/
structure Deliveries (deliveries : ι → Delivery) (x : InvoiceId) (db : Database Row) : Prop where
  consistent : metadata.Consistent db
  matched : JobsMatchEvents db
  invoice : ∀ i, (deliveries i).event.invoiceId = x
  net : ∀ i, ∃ net, calculateNetAmount (deliveries i).event.amount (deliveries i).event.fee =
    .ok net ∧ (deliveries i).netAmount = some net
  jobless : ∀ j ∈ db transferJobs, j.invoiceId ≠ x
  eventless : ∀ e ∈ db webhookEvents, e.invoiceId ≠ some x ∧
    ∀ i, e.id ≠ (deliveries i).event.eventId
  jobIds : (∀ i, ∀ j ∈ db transferJobs, j.id ≠ (deliveries i).jobId) ∧
    Function.Injective fun i => (deliveries i).jobId

/-- One job, one recording that queued it, one stored event for each id, one of them queued. -/
structure OneJob (deliveries : ι → Delivery) (x : InvoiceId) (results : ι → EventWriteResult)
    (db : Database Row) : Prop where
  job : ((db transferJobs).filter fun j : TransferJobRow => j.invoiceId == x).length = 1
  winner : ∃! i, results i = .queued
  others : ∀ i, results i ≠ .queued → results i = .duplicateInvoice ∨ results i = .duplicateEvent
  events : ∀ i, ((db webhookEvents).filter fun e : WebhookEventRow =>
    e.id == (deliveries i).event.eventId).length = 1
  outcome : ((db webhookEvents).filter fun e : WebhookEventRow =>
    e.invoiceId == some x && e.outcome == .queued).length = 1

/-! ### The invariant -/

/-- The owner is bound to nothing but the invoice, events and jobs are only added. -/
def deliveryRows (deliveries : ι → Delivery) (x : InvoiceId) (db : Database Row)
    (o : OwnedInvoiceRow) : RowInvariant ι Row where
  version
    | .ownedInvoices, v => (v.tag = o.tag → v.providerInvoiceId = some x ∨
        v.providerInvoiceId = none ∧ o.providerInvoiceId = none) ∧
        (v.tag ≠ o.tag → v.providerInvoiceId ≠ some x) ∧
        ∀ i, v.tag ∈ (deliveries i).event.tags → v.tag = o.tag
    | .transferJobs, v => v ∈ db transferJobs ∨
        v.invoiceId = x ∧ ∃ i, v.id = (deliveries i).jobId
    | .webhookEvents, v => v ∈ db webhookEvents ∨
        v.invoiceId = some x ∧ ∃ i, v.id = (deliveries i).event.eventId
    | _, _ => True
  pending
    | .ownedInvoices, _, c, v => ∃ o : OwnedInvoiceRow, c = some o ∧ v.tag = o.tag
    | .transferJobs, i, c, v => c = none ∧ v.id = (deliveries i).jobId ∧
        v.eventId = (deliveries i).event.eventId ∧ v.invoiceId = x
    | .webhookEvents, i, c, v => c = none ∧ v.id = (deliveries i).event.eventId ∧
        v.invoiceId = some x
    | _, _, _, _ => True

/-- A stored event of the invoice was queued, with its job, or came after a job. -/
def Settled (x : InvoiceId) (db : Database Row) (e : WebhookEventRow) : Prop :=
  e.outcome = .queued ∧ (∃ j ∈ db transferJobs, j.eventId = e.id ∧ j.invoiceId = x) ∨
    e.outcome = .duplicateInvoice ∧ ∃ j ∈ db transferJobs, j.invoiceId = x

/-- The job came from a queued event. -/
def Backed (x : InvoiceId) (db : Database Row) (j : TransferJobRow) : Prop :=
  ∃ e ∈ db webhookEvents, e.id = j.eventId ∧ e.invoiceId = some x ∧ e.outcome = .queued

structure Inv (deliveries : ι → Delivery) (x : InvoiceId) (db : Database Row)
    (o : OwnedInvoiceRow) (l : Log ι (SessionOp Row) SessionOp.Answer) (s : Versions ι Row) :
    Prop where
  coherent : Coherent metadata s
  rows : (deliveryRows deliveries x db o).Holds s
  owned : ∃ v ∈ committedRows s ownedInvoices, v.tag = o.tag
  settled : ∀ e ∈ committedRows s webhookEvents, e.invoiceId = some x →
    Settled x (committedRows s) e
  backed : ∀ j ∈ committedRows s transferJobs, j.invoiceId = x → Backed x (committedRows s) j
  performed : ∀ i, ∀ j ∈ committedRows s transferJobs, j.id = (deliveries i).jobId →
    ∃ e ∈ l, e.process = i

variable {deliveries : ι → Delivery} {x : InvoiceId} {db : Database Row} {o : OwnedInvoiceRow}
variable {i k : ι} {l l' : Log ι (SessionOp Row) SessionOp.Answer} {s s' : Versions ι Row}

omit [DecidableEq ι] in
theorem event_lasts (h : (deliveryRows deliveries x db o).Holds s) (e : WebhookEventRow) :
    ∀ c ∈ s webhookEvents, c.committed = some e → c.pending = none := by
  refine h.lasts fun k q hq => ?_
  cases hq.1

omit [DecidableEq ι] in
theorem job_lasts (h : (deliveryRows deliveries x db o).Holds s) (j : TransferJobRow) :
    ∀ c ∈ s transferJobs, c.committed = some j → c.pending = none := by
  refine h.lasts fun k q hq => ?_
  cases hq.1

theorem event_written (h : (deliveryRows deliveries x db o).Holds s) {e : WebhookEventRow}
    (he : e ∈ written i s webhookEvents) :
    e.id = (deliveries i).event.eventId ∧ e.invoiceId = some x := by
  obtain ⟨c, hc, hown⟩ := List.mem_filterMap.mp he
  exact (h.pending webhookEvents c hc i e (Slot.own_eq_some.mp hown)).2

theorem job_written (h : (deliveryRows deliveries x db o).Holds s) {j : TransferJobRow}
    (hj : j ∈ written i s transferJobs) : j.id = (deliveries i).jobId ∧
      j.eventId = (deliveries i).event.eventId ∧ j.invoiceId = x := by
  obtain ⟨c, hc, hown⟩ := List.mem_filterMap.mp hj
  exact (h.pending transferJobs c hc i j (Slot.own_eq_some.mp hown)).2

theorem owner_in_view (h : (deliveryRows deliveries x db o).Holds s)
    (howned : ∃ v ∈ committedRows s ownedInvoices, v.tag = o.tag) (i : ι) :
    ∃ v ∈ view i s ownedInvoices, v.tag = o.tag := by
  obtain ⟨v, hv, htag⟩ := howned
  obtain ⟨c, hc, hcommitted⟩ := List.mem_filterMap.mp hv
  cases hown : c.own i with
  | none => exact ⟨v, List.mem_filterMap.mpr ⟨c, hc, by simp [Slot.visible, hown, hcommitted]⟩, htag⟩
  | some r =>
      obtain ⟨v', hv', htag'⟩ := h.pending ownedInvoices c hc i r (Slot.own_eq_some.mp hown)
      obtain rfl := Option.some.inj (hcommitted.symm.trans hv')
      exact ⟨r, List.mem_filterMap.mpr ⟨c, hc, by simp [Slot.visible, hown]⟩, htag'.trans htag⟩

/-! ### Steps -/

theorem Settled.mono {db db' : Database Row} {e : WebhookEventRow} (h : Settled x db e)
    (hjobs : ∀ j ∈ db transferJobs, j ∈ db' transferJobs) : Settled x db' e := by
  rcases h with ⟨hout, j, hj, hid⟩ | ⟨hout, j, hj, hid⟩
  · exact .inl ⟨hout, j, hjobs j hj, hid⟩
  · exact .inr ⟨hout, j, hjobs j hj, hid⟩

theorem Backed.mono {db db' : Database Row} {j : TransferJobRow} (h : Backed x db j)
    (hevents : ∀ e ∈ db webhookEvents, e ∈ db' webhookEvents) : Backed x db' j := by
  obtain ⟨e, he, hid⟩ := h
  exact ⟨e, hevents e he, hid⟩

/-- A statement shows nothing to the others, so it has to respect the rows only. -/
theorem Inv.statement (h : Inv deliveries x db o l s) {st : Statement Row} {r : st.Answer}
    (hpermits : (deliveryRows deliveries x db o).Permits i s st)
    (he : execute metadata i st s = some (r, s')) :
    Inv deliveries x db o (⟨i, .statement st, r⟩ :: l) s' where
  coherent := h.coherent.execute he
  rows := h.rows.execute hpermits he
  owned := by
    rw [execute_committed he]
    exact h.owned
  settled := by
    rw [execute_committed he]
    exact h.settled
  backed := by
    rw [execute_committed he]
    exact h.backed
  performed := by
    rw [execute_committed he]
    intro k j hj hid
    obtain ⟨e, he, hk⟩ := h.performed k j hj hid
    exact ⟨e, List.mem_cons_of_mem _ he, hk⟩

/-- What a recording may commit. -/
structure Ending (x : InvoiceId) (i : ι) (s : Versions ι Row) : Prop where
  settled : ∀ e ∈ written i s webhookEvents, Settled x (view i s) e
  backed : ∀ j ∈ written i s transferJobs, Backed x (view i s) j

theorem Inv.commit (h : Inv deliveries x db o l s)
    (hids : Function.Injective fun i => (deliveries i).jobId) (hend : Ending x i s) :
    Inv deliveries x db o (⟨i, .commit, ()⟩ :: l) (RowVersions.commit i s) where
  coherent := h.coherent.commit
  rows := h.rows.commit
  owned := by
    rw [committedRows_commit]
    exact owner_in_view h.rows h.owned i
  settled := by
    rw [committedRows_commit]
    intro e he hx
    rcases mem_view he with hwritten | hcommitted
    · exact hend.settled e hwritten
    · exact (h.settled e hcommitted hx).mono fun j hj =>
        mem_view_of_committed hj (job_lasts h.rows j)
  backed := by
    rw [committedRows_commit]
    intro j hj hx
    rcases mem_view hj with hwritten | hcommitted
    · exact hend.backed j hwritten
    · exact (h.backed j hcommitted hx).mono fun e he =>
        mem_view_of_committed he (event_lasts h.rows e)
  performed := by
    rw [committedRows_commit]
    intro k j hj hid
    rcases mem_view hj with hwritten | hcommitted
    · exact ⟨_, List.mem_cons_self, hids ((job_written h.rows hwritten).1.symm.trans hid)⟩
    · obtain ⟨e, he, hk⟩ := h.performed k j hcommitted hid
      exact ⟨e, List.mem_cons_of_mem _ he, hk⟩

theorem Inv.rollback (h : Inv deliveries x db o l s) :
    Inv deliveries x db o (⟨i, .rollback, ()⟩ :: l) (RowVersions.rollback i s) where
  coherent := h.coherent.rollback
  rows := h.rows.rollback
  owned := by
    rw [committedRows_rollback]
    exact h.owned
  settled := by
    rw [committedRows_rollback]
    exact h.settled
  backed := by
    rw [committedRows_rollback]
    exact h.backed
  performed := by
    rw [committedRows_rollback]
    intro k j hj hid
    obtain ⟨e, he, hk⟩ := h.performed k j hj hid
    exact ⟨e, List.mem_cons_of_mem _ he, hk⟩

/-! ### What a recording knows -/

/-- The recording has stored its event, with this outcome. -/
structure Marked (i : ι) (outcome : EventWriteResult) (s : Versions ι Row) : Prop where
  stored : written i s webhookEvents ≠ []
  outcome : ∀ e ∈ written i s webhookEvents, e.outcome = outcome

def Unqueued (deliveries : ι → Delivery) (i : ι) (s : Versions ι Row) : Prop :=
  ∀ j ∈ committedRows s transferJobs, j.id ≠ (deliveries i).jobId

def Jobbed (x : InvoiceId) (s : Versions ι Row) : Prop :=
  ∃ j ∈ committedRows s transferJobs, j.invoiceId = x

/-- The event is stored and nothing is decided. -/
structure Undecided (deliveries : ι → Delivery) (i : ι) (s : Versions ι Row) : Prop where
  marked : Marked i .queued s
  jobless : written i s transferJobs = []
  unqueued : Unqueued deliveries i s

/-- Another recording has stored the event. -/
structure Known (deliveries : ι → Delivery) (i : ι) (s : Versions ι Row) : Prop where
  rest : AtRest i s
  unqueued : Unqueued deliveries i s
  stored : ∃ e ∈ committedRows s webhookEvents, e.id = (deliveries i).event.eventId

structure Duplicate (deliveries : ι → Delivery) (x : InvoiceId) (i : ι) (s : Versions ι Row) :
    Prop where
  marked : Marked i .duplicateInvoice s
  jobless : written i s transferJobs = []
  unqueued : Unqueued deliveries i s
  jobbed : Jobbed x s

structure Queued (i : ι) (s : Versions ι Row) : Prop where
  marked : Marked i .queued s
  job : written i s transferJobs ≠ []

/-- The recordings return nothing else. -/
def Result (deliveries : ι → Delivery) (x : InvoiceId) (i : ι) :
    EventWriteResult → Versions ι Row → Prop
  | .queued => Queued i
  | .duplicateInvoice => Duplicate deliveries x i
  | .duplicateEvent => Known deliveries i
  | _ => fun _ => False

section
variable (hids : Function.Injective fun i => (deliveries i).jobId)
include hids

theorem persists_unqueued :
    Persists metadata (Inv deliveries x db o) i fun _ s => Unqueued deliveries i s := by
  intro l s l' s' hfact hstep j hj
  obtain ⟨k, hk, op, r, hop, -⟩ := hstep.step
  rcases perform_of_committed hop hj with hold | ⟨-, hwritten⟩
  · exact hfact j hold
  · intro hid
    exact hk (hids ((job_written hstep.before.rows hwritten).1.symm.trans hid))

end

theorem persists_stored : Persists metadata (Inv deliveries x db o) i
    fun _ s => ∃ e ∈ committedRows s webhookEvents, e.id = (deliveries k).event.eventId := by
  intro l s l' s' hfact hstep
  obtain ⟨e, he, hid⟩ := hfact
  obtain ⟨k, -, op, r, hop, -⟩ := hstep.step
  exact ⟨e, perform_mem_committed hop he (event_lasts hstep.before.rows e), hid⟩

theorem persists_jobbed :
    Persists metadata (Inv deliveries x db o) i fun _ s => Jobbed x s := by
  intro l s l' s' hfact hstep
  obtain ⟨j, hj, hid⟩ := hfact
  obtain ⟨k, -, op, r, hop, -⟩ := hstep.step
  exact ⟨j, perform_mem_committed hop hj (job_lasts hstep.before.rows j), hid⟩

theorem persists_marked {outcome : EventWriteResult} :
    Persists metadata (Inv deliveries x db o) i fun _ s => Marked i outcome s := by
  intro l s l' s' hfact hstep
  refine ⟨?_, ?_⟩ <;> rw [hstep.written_eq]
  · exact hfact.stored
  · exact hfact.outcome

theorem persists_undecided (hids : Function.Injective fun i => (deliveries i).jobId) :
    Persists metadata (Inv deliveries x db o) i fun _ s => Undecided deliveries i s := by
  intro l s l' s' hfact hstep
  refine ⟨persists_marked l s l' s' hfact.marked hstep, ?_,
    persists_unqueued hids l s l' s' hfact.unqueued hstep⟩
  rw [hstep.written_eq]
  exact hfact.jobless

theorem persists_result (hids : Function.Injective fun i => (deliveries i).jobId)
    (outcome : EventWriteResult) :
    Persists metadata (Inv deliveries x db o) i fun _ s => Result deliveries x i outcome s := by
  intro l s l' s' hfact hstep
  cases outcome with
  | queued =>
      refine ⟨persists_marked l s l' s' hfact.marked hstep, ?_⟩
      rw [hstep.written_eq]
      exact hfact.job
  | duplicateInvoice =>
      refine ⟨persists_marked l s l' s' hfact.marked hstep, ?_,
        persists_unqueued hids l s l' s' hfact.unqueued hstep,
        persists_jobbed l s l' s' hfact.jobbed hstep⟩
      rw [hstep.written_eq]
      exact hfact.jobless
  | duplicateEvent =>
      exact ⟨persists_atRest l s l' s' hfact.rest hstep,
        persists_unqueued hids l s l' s' hfact.unqueued hstep,
        persists_stored l s l' s' hfact.stored hstep⟩
  | _ => exact hfact

/-- With what it knows at its end, a recording may commit. -/
theorem Result.ending (h : Inv deliveries x db o l s) {outcome : EventWriteResult}
    (hresult : Result deliveries x i outcome s) : Ending x i s := by
  cases outcome with
  | queued =>
      obtain ⟨j, hj⟩ := List.exists_mem_of_ne_nil _ hresult.job
      obtain ⟨e, he⟩ := List.exists_mem_of_ne_nil _ hresult.marked.stored
      refine ⟨fun e he => .inl ⟨hresult.marked.outcome e he, j, mem_written_view hj, ?_⟩,
        fun j hj => ⟨e, mem_written_view he, ?_⟩⟩
      · obtain ⟨-, hevent, hx⟩ := job_written h.rows hj
        exact ⟨hevent.trans (event_written h.rows he).1.symm, hx⟩
      · obtain ⟨hid, hx⟩ := event_written h.rows he
        exact ⟨hid.trans (job_written h.rows hj).2.1.symm, hx, hresult.marked.outcome e he⟩
  | duplicateInvoice =>
      obtain ⟨j, hj, hx⟩ := hresult.jobbed
      refine ⟨fun e he => .inr ⟨hresult.marked.outcome e he, j, ?_, hx⟩, fun j hj => ?_⟩
      · exact mem_view_of_committed hj (job_lasts h.rows j)
      · rw [hresult.jobless] at hj
        cases hj
  | duplicateEvent =>
      refine ⟨fun e he => ?_, fun j hj => ?_⟩
      · rw [hresult.rest] at he
        cases he
      · rw [hresult.rest] at hj
        cases hj
  | _ => exact hresult.elim

/-! ### The statements of one recording -/

abbrev together (deliveries : ι → Delivery) (x : InvoiceId) (db : Database Row)
    (o : OwnedInvoiceRow) :
    Protocol ι (SessionOp Row) SessionOp.Answer StoreError EventWriteResult (Versions ι Row) :=
  protocol metadata (fun i => (deliveries i).txn) (fun _ _ _ _ => True) (Inv deliveries x db o)
    fun _ _ _ _ => True

theorem rule {st : Statement Row} {fact : Versions ι Row → Prop}
    {result : st.Answer → Versions ι Row → Prop}
    (hpersists : Persists metadata (Inv deliveries x db o) i fun _ s => fact s)
    (hstep : ∀ l s r s', Inv deliveries x db o l s → fact s →
      execute metadata i st s = some (r, s') →
        (deliveryRows deliveries x db o).Permits i s st ∧ result r s') :
    (together deliveries x db o).Triple i (fun _ s => fact s) (.statement st)
      fun r _ s => result r s :=
  triple hpersists (fun _ _ _ _ => trivial) fun l s r s' hinv hfact _ hop =>
    ⟨hinv.statement (hstep l s r s' hinv hfact hop).1 hop, (hstep l s r s' hinv hfact hop).2⟩

/-- A query in an undecided recording. -/
theorem select_rule (hids : Function.Injective fun i => (deliveries i).jobId)
    {fact : Prop} {t : Table} {condition : Row t → Bool}
    {result : List (Row t) → Versions ι Row → Prop}
    (hresult : ∀ l s, Inv deliveries x db o l s → Undecided deliveries i s → fact →
      result ((view i s t).filter condition) s) :
    (together deliveries x db o).Triple i (fun _ s => Undecided deliveries i s ∧ fact)
      (.statement (.select t condition)) fun rows _ s => result rows s := by
  refine rule ((persists_undecided hids).and persists_const) fun l s r s' hinv hfact he => ?_
  obtain ⟨rfl, rfl⟩ := Prod.mk.inj (Option.some.inj he)
  exact ⟨trivial, hresult l s hinv hfact.1 hfact.2⟩

/-- A statement on other tables than those of events and jobs. -/
theorem Undecided.congr (h : Undecided deliveries i s)
    (hevents : s' webhookEvents = s webhookEvents) (hjobs : s' transferJobs = s transferJobs) :
    Undecided deliveries i s' where
  marked := by
    refine ⟨?_, ?_⟩ <;> rw [written_congr hevents]
    · exact h.marked.stored
    · exact h.marked.outcome
  jobless := (written_congr hjobs).trans h.jobless
  unqueued := by
    unfold Unqueued
    rw [committedRows_congr hjobs]
    exact h.unqueued

/-! #### The owner -/

theorem selectOwner_triple (hd : Deliveries deliveries x db) : (together deliveries x db o).Triple i
    (fun _ s => Undecided deliveries i s) (.statement (deliveries i).selectOwner) fun rows _ s =>
      (rows = [] → Undecided deliveries i s ∧ o.providerInvoiceId = none) ∧
        ∀ owner ∈ rows.head?, Undecided deliveries i s ∧ owner.tag = o.tag := by
  refine rule (persists_undecided hd.jobIds.2) fun l s r s' hinv hfact he => ?_
  obtain ⟨rfl, rfl⟩ := Prod.mk.inj (Option.some.inj he)
  refine ⟨trivial, fun hnone => ⟨hfact, ?_⟩, fun owner howner => ⟨hfact, ?_⟩⟩
  · obtain ⟨v, hv, htag⟩ := owner_in_view hinv.rows hinv.owned i
    rcases (hinv.rows.of_view hv).1 htag with hbound | ⟨-, hunbound⟩
    · have hmem : v ∈ (view i s ownedInvoices).filter fun v : OwnedInvoiceRow =>
          v.providerInvoiceId == some (deliveries i).event.invoiceId :=
        List.mem_filter.mpr ⟨hv, by simp [hbound, hd.invoice i]⟩
      rw [hnone] at hmem
      cases hmem
    · exact hunbound
  · obtain ⟨hview, hid⟩ := List.mem_filter.mp (List.mem_of_mem_head? howner)
    by_contra htag
    refine (hinv.rows.of_view hview).2.1 htag ?_
    simpa [hd.invoice i] using hid

omit [DecidableEq ι] in
theorem Owner.tagged (ho : Owner deliveries x db o) (hunbound : o.providerInvoiceId = none)
    (i : ι) : o.tag ∈ (deliveries i).event.tags := by
  rcases ho.found with hbound | ⟨-, -, htags⟩
  · rw [hunbound] at hbound
    cases hbound
  · exact htags i

/-- There is one row whose tag is on the event, and it is the owner. -/
theorem found_by_tag (hinv : Inv deliveries x db o l s) (htag : o.tag ∈ (deliveries i).event.tags) :
    ∃ v, (view i s ownedInvoices).filter (fun v : OwnedInvoiceRow =>
      (deliveries i).event.tags.eraseDups.contains v.tag) = [v] ∧ v.tag = o.tag ∧
        (v.providerInvoiceId = none ∨ v.providerInvoiceId = some x) := by
  obtain ⟨v, hv, hvtag⟩ := owner_in_view hinv.rows hinv.owned i
  refine ⟨v, ?_, hvtag, ?_⟩
  · have hsame : (view i s ownedInvoices).filter (fun v : OwnedInvoiceRow =>
        (deliveries i).event.tags.eraseDups.contains v.tag) =
          (view i s ownedInvoices).filter fun v : OwnedInvoiceRow => v.tag == o.tag := by
      refine List.filter_congr fun r hr => ?_
      rw [Bool.eq_iff_iff]
      constructor
      · intro hmem
        simpa using (hinv.rows.of_view hr).2.2 i (by simpa using hmem)
      · intro heq
        rw [beq_iff_eq.mp heq]
        simpa using htag
    rw [hsame]
    refine (hinv.coherent.view i ownedInvoices).filter_eq_singleton (fun a b ha hb => ?_) hv
      (by simpa using hvtag)
    exact metadata.clash_of_key ownedInvoices a b
      ((beq_iff_eq.mp ha).trans (beq_iff_eq.mp hb).symm)
  · exact ((hinv.rows.of_view hv).1 hvtag).symm.imp And.left id

theorem selectByTags_triple (hd : Deliveries deliveries x db) (ho : Owner deliveries x db o) :
    (together deliveries x db o).Triple i
      (fun _ s => Undecided deliveries i s ∧ o.providerInvoiceId = none)
      (.statement (deliveries i).selectByTags) fun rows _ s => ∃ v, rows = [v] ∧
        (v.providerInvoiceId = none ∨ v.providerInvoiceId = some x) ∧
          Undecided deliveries i s ∧ v.tag = o.tag := by
  refine select_rule hd.jobIds.2 fun l s hinv hfact hunbound => ?_
  obtain ⟨v, hv, htag, hid⟩ := found_by_tag hinv (ho.tagged hunbound i)
  exact ⟨v, hv, hid, hfact, htag⟩

theorem selectTagMatches_triple (hd : Deliveries deliveries x db) {owner : OwnedInvoiceRow} :
    (together deliveries x db o).Triple i
      (fun _ s => Undecided deliveries i s ∧ owner.tag = o.tag)
      (.statement (deliveries i).selectTagMatches) fun rows _ s =>
        (∀ v ∈ rows, v.tag = owner.tag) ∧ Undecided deliveries i s := by
  refine select_rule hd.jobIds.2 fun l s hinv hfact howner => ⟨fun v hv => ?_, hfact⟩
  obtain ⟨hview, hmem⟩ := List.mem_filter.mp hv
  exact ((hinv.rows.of_view hview).2.2 i (by simpa using hmem)).trans howner.symm

theorem bindOwner_permits (hd : Deliveries deliveries x db) (hinv : Inv deliveries x db o l s)
    {owner : OwnedInvoiceRow} (howner : owner.tag = o.tag) :
    (deliveryRows deliveries x db o).Permits i s ((deliveries i).bindOwner owner) := by
  intro c hc _ r hr hcondition
  have htag : r.tag = o.tag := (beq_iff_eq.mp (Bool.and_eq_true_iff.mp hcondition).1).trans howner
  refine ⟨⟨fun _ => .inl (by simp [hd.invoice i]), fun hnot => absurd htag hnot,
    fun _ _ => htag⟩, ?_⟩
  rcases Slot.visible_eq_some.mp hr with hpending | ⟨hcommitted, -⟩
  · obtain ⟨v, hv, hvtag⟩ := hinv.rows.pending ownedInvoices c hc i r hpending
    exact ⟨v, hv, hvtag⟩
  · exact ⟨r, hcommitted, rfl⟩

/-- The owner can always be bound: no other row has the invoice. -/
theorem bindOwner_valid (hd : Deliveries deliveries x db) (hinv : Inv deliveries x db o l s)
    {owner : OwnedInvoiceRow} (howner : owner.tag = o.tag) :
    metadata.Valid ownedInvoices (assignWhere
      (fun v : OwnedInvoiceRow => v.tag == owner.tag && v.providerInvoiceId == none)
      (fun v => { v with
        providerInvoiceId := some (deliveries i).event.invoiceId
        updatedAt := (deliveries i).receivedAt })
      (view i s ownedInvoices)) := by
  have hvalid := hinv.coherent.view i ownedInvoices
  refine hvalid.assignWhere (fun r hr _ => hvalid.1 r hr) (fun a ha b hb hc hab _ => ?_)
    fun a ha b hb hc hc' hab => ?_
  · have htag : a.tag = o.tag := (beq_iff_eq.mp (Bool.and_eq_true_iff.mp hc).1).trans howner
    simp only [metadata, uniqueConflict, Bool.or_eq_false_iff] at hab ⊢
    refine ⟨⟨hab.1.1, Bool.eq_false_iff.mpr fun hsame => ?_⟩, hab.2⟩
    obtain ⟨y, hy, hb'⟩ := sameNonNull_iff.mp hsame
    have hx : b.providerInvoiceId = some x := by
      rw [hb', ← Option.some.inj hy, hd.invoice i]
    have hbtag : b.tag = o.tag := by
      by_contra hnot
      exact (hinv.rows.of_view hb).2.1 hnot hx
    simp [htag, hbtag] at hab
  · have htag : a.tag = b.tag := (beq_iff_eq.mp (Bool.and_eq_true_iff.mp hc).1).trans
      (beq_iff_eq.mp (Bool.and_eq_true_iff.mp hc').1).symm
    simp [metadata, uniqueConflict, htag] at hab

theorem bindOwner_triple (hd : Deliveries deliveries x db) {owner : OwnedInvoiceRow} :
    (together deliveries x db o).Triple i
      (fun _ s => Undecided deliveries i s ∧ owner.tag = o.tag)
      (.statement ((deliveries i).bindOwner owner)) fun bound _ s =>
        bound ≠ none ∧ Undecided deliveries i s := by
  refine rule ((persists_undecided hd.jobIds.2).and persists_const) fun l s r s' hinv hfact he => ?_
  refine ⟨bindOwner_permits hd hinv hfact.2, ?_, hfact.1.congr
    (execute_frame he (by simp [tableOf])) (execute_frame he (by simp [tableOf]))⟩
  rintro rfl
  exact (execute_update_none he).2 (bindOwner_valid hd hinv hfact.2)

theorem createDraft_triple (hd : Deliveries deliveries x db) (draftId : DraftId) :
    (together deliveries x db o).Triple i (fun _ s => Undecided deliveries i s)
      (.statement ((deliveries i).createDraft draftId)) fun _ _ s => Undecided deliveries i s := by
  refine rule (persists_undecided hd.jobIds.2) fun l s r s' _ hfact he => ?_
  exact ⟨fun _ _ _ _ _ _ => ⟨trivial, trivial⟩, hfact.congr
    (execute_frame he (by simp [tableOf])) (execute_frame he (by simp [tableOf]))⟩

/-! #### The job -/

theorem selectJobs_triple (hd : Deliveries deliveries x db) : (together deliveries x db o).Triple i
    (fun _ s => Undecided deliveries i s) (.statement (deliveries i).selectJobs) fun rows _ s =>
      Undecided deliveries i s ∧ (rows ≠ [] → Jobbed x s) := by
  refine rule (persists_undecided hd.jobIds.2) fun l s r s' hinv hfact he => ?_
  obtain ⟨rfl, rfl⟩ := Prod.mk.inj (Option.some.inj he)
  refine ⟨trivial, hfact, fun hrows => ?_⟩
  obtain ⟨j, hj⟩ := List.exists_mem_of_ne_nil _ hrows
  obtain ⟨hview, hid⟩ := List.mem_filter.mp hj
  rw [view_of_written_nil hfact.jobless] at hview
  exact ⟨j, hview, by simpa [hd.invoice i] using hid⟩

omit [DecidableEq ι] in
/-- The job clashes with no row but a job of the invoice. -/
theorem newJob_free (hd : Deliveries deliveries x db) {net : ℤ} {j : TransferJobRow}
    (hj : j ∈ db transferJobs) : uniqueConflict transferJobs
      (newJob (deliveries i).jobId (deliveries i).event net (deliveries i).receivedAt) j =
        false := by
  have hx : x ≠ j.invoiceId := (hd.jobless j hj).symm
  have hevent : (deliveries i).event.eventId ≠ j.eventId := by
    obtain ⟨e, he, -⟩ := hd.matched.event_of_job j hj
    have hmem : e ∈ (db webhookEvents).filter fun e : WebhookEventRow => e.id == j.eventId := by
      rw [he]
      exact List.mem_singleton_self e
    obtain ⟨hmem, hid⟩ := List.mem_filter.mp hmem
    exact fun heq => (hd.eventless e hmem).2 i ((beq_iff_eq.mp hid).trans heq.symm)
  have hexternal : (buildTransferCommand x net).externalId ≠ j.externalId := by
    rw [(hd.matched.well_formed j hj).externalId_eq]
    exact fun heq => hx (buildTransferCommand_externalId_inj.mp heq)
  have htag : (buildTransferCommand x net).tag ≠ j.tag := by
    rw [(hd.matched.well_formed j hj).tag_eq]
    exact fun heq => hx (buildTransferCommand_tag_inj.mp heq)
  have hid : (deliveries i).jobId ≠ j.id := (hd.jobIds.1 i j hj).symm
  simp [uniqueConflict, newJob, hd.invoice i, hid, hevent, hx, hexternal, htag, sameNonNull]

theorem insertJob_triple (hd : Deliveries deliveries x db) {net : ℤ}
    (hnet : (deliveries i).netAmount = some net) : (together deliveries x db o).Triple i
    (fun _ s => Undecided deliveries i s) (.statement ((deliveries i).insertJob net))
      fun inserted _ s => (inserted = true → Queued i s) ∧
        (inserted = false → Undecided deliveries i s ∧ Jobbed x s) := by
  refine rule (persists_undecided hd.jobIds.2) fun l s r s' hinv hfact he => ?_
  refine ⟨fun j hj => ?_, fun htrue => ?_, fun hfalse => ?_⟩
  · obtain rfl := List.mem_singleton.mp hj
    exact ⟨.inr ⟨hd.invoice i, i, rfl⟩, rfl, rfl, rfl, hd.invoice i⟩
  · subst htrue
    have hs := execute_insert_true he
    have hevents : s' webhookEvents = s webhookEvents := execute_frame he (by simp [tableOf])
    refine ⟨⟨?_, ?_⟩, ?_⟩
    · rw [written_congr hevents]
      exact hfact.marked.stored
    · rw [written_congr hevents]
      exact hfact.marked.outcome
    · rw [hs]
      simp [written, Slot.own]
  · subst hfalse
    obtain ⟨rfl, hwhy⟩ := execute_insert_false hfact.jobless he
    refine ⟨hfact, ?_⟩
    obtain ⟨net', hcalculated, hnet'⟩ := hd.net i
    obtain rfl := Option.some.inj (hnet.symm.trans hnet')
    obtain ⟨hamount, hfee, -, hpositive⟩ := calculateNetAmount_ok hcalculated
    rcases hwhy with href | hcheck | ⟨j, hj, hclash⟩
    · obtain ⟨e, he⟩ := List.exists_mem_of_ne_nil _ hfact.marked.stored
      have hthere : referenced metadata i transferJobs s' (newJob (deliveries i).jobId
          (deliveries i).event net (deliveries i).receivedAt) = true := by
        simp only [referenced, metadata, foreignKeys, newJob, List.all_cons, List.all_nil,
          Bool.and_true, List.any_eq_true]
        exact ⟨e, mem_written_view he, by simp [primaryKey, (event_written hinv.rows he).1]⟩
      rw [hthere] at href
      cases href
    · simp [metadata, rowCheck, newJob, hamount, hfee, hpositive] at hcheck
    · rcases hinv.rows.of_committed hj with hold | ⟨hx, -⟩
      · rw [show metadata.clash transferJobs _ j = false from newJob_free hd hold] at hclash
        cases hclash
      · exact ⟨j, hj, hx⟩

/-! #### The event -/

theorem mark_permits (hinv : Inv deliveries x db o l s) {outcome outcome' : EventWriteResult}
    (hmarked : Marked i outcome' s) :
    (deliveryRows deliveries x db o).Permits i s ((deliveries i).mark outcome) := by
  intro c hc _ r hr hcondition
  obtain ⟨e, he⟩ := List.exists_mem_of_ne_nil _ hmarked.stored
  have hkey : metadata.key webhookEvents e = metadata.key webhookEvents r :=
    (event_written hinv.rows he).1.trans (beq_iff_eq.mp hcondition).symm
  have hown := hinv.coherent.own_of_key he hc hr hkey
  obtain ⟨hnone, hid, hx⟩ :=
    hinv.rows.pending webhookEvents c hc i r (Slot.own_eq_some.mp hown)
  exact ⟨.inr ⟨hx, i, hid⟩, hnone, hid, hx⟩

theorem mark_marked (hinv : Inv deliveries x db o l s) {outcome outcome' : EventWriteResult}
    (hmarked : Marked i outcome' s) {r : Option ℕ}
    (he : execute metadata i ((deliveries i).mark outcome) s = some (r, s')) (hr : r ≠ none) :
    Marked i outcome s' := by
  rcases execute_update he with ⟨hnone, -⟩ | hupdated
  · exact absurd hnone hr
  · refine ⟨?_, fun e he => ?_⟩
    · obtain ⟨e, he⟩ := List.exists_mem_of_ne_nil _ hmarked.stored
      refine List.ne_nil_of_mem (hupdated.mem_written.mpr (.inl ⟨e, mem_written_view he, ?_, rfl⟩))
      simp [(event_written hinv.rows he).1]
    · rcases hupdated.mem_written.mp he with ⟨e', -, -, rfl⟩ | ⟨hold, hother⟩
      · rfl
      · simp [(event_written hinv.rows hold).1] at hother

theorem markDuplicate_triple (hd : Deliveries deliveries x db) :
    (together deliveries x db o).Triple i (fun _ s => Undecided deliveries i s ∧ Jobbed x s)
      (.statement ((deliveries i).mark .duplicateInvoice)) fun updated _ s =>
        updated ≠ none → Duplicate deliveries x i s := by
  refine rule ((persists_undecided hd.jobIds.2).and persists_jobbed) fun l s r s' hinv hfact he => ?_
  obtain ⟨hfact, hjobbed⟩ := hfact
  have hjobs : s' transferJobs = s transferJobs := execute_frame he (by simp [tableOf])
  refine ⟨mark_permits hinv hfact.marked, fun hr => ⟨mark_marked hinv hfact.marked he hr,
    (written_congr hjobs).trans hfact.jobless, ?_, ?_⟩⟩
  · unfold Unqueued
    rw [committedRows_congr hjobs]
    exact hfact.unqueued
  · unfold Jobbed
    rw [committedRows_congr hjobs]
    exact hjobbed

theorem markQueued_triple : (together deliveries x db o).Triple i (fun _ s => Queued i s)
    (.statement ((deliveries i).mark .queued)) fun updated _ s => updated ≠ none → Queued i s := by
  have hpersists : Persists metadata (Inv deliveries x db o) i fun _ s => Queued i s := by
    intro l s l' s' hfact hstep
    refine ⟨persists_marked l s l' s' hfact.marked hstep, ?_⟩
    rw [hstep.written_eq]
    exact hfact.job
  refine rule hpersists fun l s r s' hinv hfact he => ⟨mark_permits hinv hfact.marked, fun hr => ?_⟩
  have hjobs : s' transferJobs = s transferJobs := execute_frame he (by simp [tableOf])
  refine ⟨mark_marked hinv hfact.marked he hr, ?_⟩
  rw [written_congr hjobs]
  exact hfact.job

theorem insertEvent_triple (hd : Deliveries deliveries x db) :
    (together deliveries x db o).Triple i (fun _ s => AtRest i s ∧ Unqueued deliveries i s)
      (.statement (deliveries i).insertEvent) fun stored _ s =>
        (stored = true → Undecided deliveries i s) ∧ (stored = false → Known deliveries i s) := by
  refine rule (persists_atRest.and (persists_unqueued hd.jobIds.2)) fun l s r s' hinv hfact he => ?_
  obtain ⟨hrest, hunqueued⟩ := hfact
  obtain ⟨net, -, hnet⟩ := hd.net i
  refine ⟨fun e he => ?_, fun htrue => ?_, fun hfalse => ?_⟩
  · obtain rfl := List.mem_singleton.mp he
    have hx : (eventRow (deliveries i).toRecord
        (initialOutcome (deliveries i).toRecord)).invoiceId = some x := by
      simp [eventRow, Delivery.toRecord, VerifiedEvent.invoiceId, hd.invoice i]
    exact ⟨.inr ⟨hx, i, rfl⟩, rfl, rfl, hx⟩
  · subst htrue
    have hjobs : s' transferJobs = s transferJobs := execute_frame he (by simp [tableOf])
    have hs := execute_insert_true he
    have hwritten : written i s' webhookEvents = [eventRow (deliveries i).toRecord
        (initialOutcome (deliveries i).toRecord)] := by
      have hold : (s webhookEvents).filterMap (Slot.own i) = [] := congrFun hrest webhookEvents
      rw [hs, written, Versions.set_self, List.filterMap_append, hold]
      simp [Slot.own]
    refine ⟨⟨by simp [hwritten], fun e he => ?_⟩,
      (written_congr hjobs).trans (congrFun hrest transferJobs), ?_⟩
    · rw [hwritten] at he
      obtain rfl := List.mem_singleton.mp he
      simp [eventRow, initialOutcome, Delivery.toRecord, hnet]
    · unfold Unqueued
      rw [committedRows_congr hjobs]
      exact hunqueued
  · subst hfalse
    obtain ⟨rfl, hwhy⟩ := execute_insert_false (congrFun hrest webhookEvents) he
    refine ⟨hrest, hunqueued, ?_⟩
    rcases hwhy with href | hcheck | ⟨e, he, hclash⟩
    · simp [referenced, metadata, foreignKeys] at href
    · simp [metadata, rowCheck] at hcheck
    · have hid : (deliveries i).event.eventId = e.id := by
        simpa [metadata, uniqueConflict, eventRow, Delivery.toRecord, VerifiedEvent.eventId] using hclash
      exact ⟨e, he, hid.symm⟩

/-- A stored event of the invoice is never one that a redelivery promotes. -/
theorem selectStored_triple (hd : Deliveries deliveries x db) :
    (together deliveries x db o).Triple i (fun _ s => Known deliveries i s)
      (.statement (deliveries i).selectStored) fun rows _ s =>
        (∀ row ∈ rows.head?, ¬ (deliveries i).Promotes row) ∧ Known deliveries i s := by
  refine rule (persists_result hd.jobIds.2 .duplicateEvent) fun l s r s' hinv hfact he => ?_
  obtain ⟨rfl, rfl⟩ := Prod.mk.inj (Option.some.inj he)
  refine ⟨trivial, fun row hrow hpromotes => ?_, hfact⟩
  obtain ⟨hview, hid⟩ := List.mem_filter.mp (List.mem_of_mem_head? hrow)
  rw [view_of_written_nil (congrFun hfact.rest webhookEvents)] at hview
  rcases hinv.rows.of_committed hview with hold | ⟨hx, -⟩
  · exact (hd.eventless row hold).2 i (beq_iff_eq.mp hid)
  · rcases hinv.settled row hview hx with ⟨hout, -⟩ | ⟨hout, -⟩ <;>
      rw [hpromotes.2] at hout <;> cases hout

/-! ### One recording -/

def outline (hd : Deliveries deliveries x db) (ho : Owner deliveries x db o) (i : ι) :
    Outline (together deliveries x db o) i (deliveries i) where
  start _ s := AtRest i s ∧ Unqueued deliveries i s
  known _ s := Known deliveries i s
  seek _ _ s := Undecided deliveries i s
  unbound _ _ s := Undecided deliveries i s ∧ o.providerInvoiceId = none
  selected _ owner _ s := Undecided deliveries i s ∧ owner.tag = o.tag
  matched _ owner _ s := Undecided deliveries i s ∧ owner.tag = o.tag
  owned _ _ _ s := Undecided deliveries i s
  drafted _ _ s := Undecided deliveries i s
  vacant _ _ s := Undecided deliveries i s
  taken _ s := Undecided deliveries i s ∧ Jobbed x s
  queued _ _ s := Queued i s
  unowned _ _ _ := False
  result outcome _ s := Result deliveries x i outcome s
  failed _ _ := True
  result_stable outcome := (persists_result hd.jobIds.2 outcome).stable
  failed_stable := persists_const.stable
  insertEvent := (insertEvent_triple hd).mono fun stored l s h => by
    obtain ⟨net, -, hnet⟩ := hd.net i
    simp only [hnet, ne_eq, reduceCtorEq, not_false_eq_true, false_implies, true_implies, true_and]
    exact h
  selectStored := (selectStored_triple hd).mono fun _ _ _ h =>
    ⟨fun _ => h.2, fun row hrow hpromotes => (h.1 row hrow hpromotes).elim⟩
  selectOwner _ := selectOwner_triple hd
  untagged _ _ _ htags := by
    refine ⟨fun h => ?_, fun owner h => h.1⟩
    have htag := ho.tagged h.2 i
    rw [htags] at htag
    cases htag
  selectByTags _ := (selectByTags_triple hd ho).mono fun rows l s h => by
    obtain ⟨v, rfl, hid, hfact, htag⟩ := h
    rw [← hd.invoice i] at hid
    refine ⟨fun owner howner _ => ?_, fun hnot => ?_⟩
    · obtain rfl := List.singleton_inj.mp (take_two_eq_singleton.mp howner)
      exact ⟨hfact, htag⟩
    · obtain ⟨hsome, hother⟩ := hnot v rfl
      exact hid.elim hsome hother
  bindOwner _ _ := (bindOwner_triple hd).mono fun _ _ _ h => ⟨fun hnone => h.1 hnone, fun _ => h.2⟩
  selectTagMatches _ _ := (selectTagMatches_triple hd).mono fun _ _ _ h => by
    refine ⟨fun _ => h.2, fun hother => ?_⟩
    obtain ⟨v, hv, hne⟩ := hother
    exact hne (h.1 v hv)
  undrafted _ _ _ _ _ h := h
  createDraft _ _ draftId _ := (createDraft_triple hd draftId).mono fun _ _ _ h =>
    ⟨fun _ => trivial, fun _ => h⟩
  selectJobs _ := (selectJobs_triple hd).mono fun _ _ _ h =>
    ⟨fun _ => h.1, fun hrows => ⟨h.1, h.2 hrows⟩⟩
  insertJob _ _ hnet := insertJob_triple hd hnet
  markDuplicate := (markDuplicate_triple hd).mono fun _ _ _ h => ⟨fun _ => trivial, h⟩
  markUnknown := rule persists_const fun _ _ _ _ _ h _ => h.elim
  markQueued := markQueued_triple.mono fun _ _ _ h => ⟨fun _ => trivial, h⟩
  ends _ _ := ⟨id, False.elim⟩

/-! ### After the commit -/

/-- What is left of a recording that has ended. -/
structure Ended (deliveries : ι → Delivery) (i : ι) (outcome : EventWriteResult)
    (s : Versions ι Row) : Prop where
  rest : AtRest i s
  stored : ∃ e ∈ committedRows s webhookEvents, e.id = (deliveries i).event.eventId
  job : outcome = .queued ∧ (∃ j ∈ committedRows s transferJobs, j.id = (deliveries i).jobId) ∨
    (outcome = .duplicateInvoice ∨ outcome = .duplicateEvent) ∧ Unqueued deliveries i s

def After (deliveries : ι → Delivery) (i : ι) : Except StoreError EventWriteResult → Fact ι Row
  | .ok outcome, _, s => Ended deliveries i outcome s
  | .error _, _, s => AtRest i s

theorem persists_after (hids : Function.Injective fun i => (deliveries i).jobId)
    (r : Except StoreError EventWriteResult) :
    Persists metadata (Inv deliveries x db o) i (After deliveries i r) := by
  intro l s l' s' hfact hstep
  cases r with
  | error e => exact persists_atRest l s l' s' hfact hstep
  | ok outcome =>
      refine ⟨persists_atRest l s l' s' hfact.rest hstep,
        persists_stored l s l' s' hfact.stored hstep, ?_⟩
      rcases hfact.job with ⟨hqueued, j, hj, hid⟩ | ⟨hother, hunqueued⟩
      · obtain ⟨k, -, op, r, hop, -⟩ := hstep.step
        exact .inl ⟨hqueued, j,
          perform_mem_committed hop hj (job_lasts hstep.before.rows j), hid⟩
      · exact .inr ⟨hother, persists_unqueued hids l s l' s' hunqueued hstep⟩

theorem ended_of_result (hinv : Inv deliveries x db o l s) {outcome : EventWriteResult}
    (hresult : Result deliveries x i outcome s) :
    Ended deliveries i outcome (RowVersions.commit i s) := by
  have hstored : ∀ outcome', Marked i outcome' s →
      ∃ e ∈ view i s webhookEvents, e.id = (deliveries i).event.eventId := by
    intro outcome' hmarked
    obtain ⟨e, he⟩ := List.exists_mem_of_ne_nil _ hmarked.stored
    exact ⟨e, mem_written_view he, (event_written hinv.rows he).1⟩
  have hunqueued : written i s transferJobs = [] → Unqueued deliveries i s →
      Unqueued deliveries i (RowVersions.commit i s) := by
    intro hjobless h
    unfold Unqueued
    rw [committedRows_commit, view_of_written_nil hjobless]
    exact h
  constructor
  · exact written_commit_self
  · rw [committedRows_commit]
    cases outcome with
    | queued => exact hstored _ hresult.marked
    | duplicateInvoice => exact hstored _ hresult.marked
    | duplicateEvent =>
        rw [view_of_written_nil (congrFun hresult.rest webhookEvents)]
        exact hresult.stored
    | _ => exact hresult.elim
  · cases outcome with
    | queued =>
        obtain ⟨j, hj⟩ := List.exists_mem_of_ne_nil _ hresult.job
        rw [committedRows_commit]
        exact .inl ⟨rfl, j, mem_written_view hj, (job_written hinv.rows hj).1⟩
    | duplicateInvoice =>
        exact .inr ⟨.inl rfl, hunqueued hresult.jobless hresult.unqueued⟩
    | duplicateEvent =>
        exact .inr ⟨.inr rfl, hunqueued (congrFun hresult.rest transferJobs) hresult.unqueued⟩
    | _ => exact hresult.elim

theorem together_kept (hd : Deliveries deliveries x db) (ho : Owner deliveries x db o) :
    (together deliveries x db o).Kept (fun i _ s => AtRest i s) (After deliveries) := by
  refine kept (fun i r l s h => ?_) fun i l s hinv hrest hnew => ?_
  · cases r with
    | ok outcome => exact h.rest
    | error e => exact h
  · refine session_ensures (fun outcome => ?_) ?_ (persists_after hd.jobIds.2)
      ((outline hd ho i).record_ensures ⟨hrest, fun j hj hid => ?_⟩)
    · refine triple (persists_result hd.jobIds.2 outcome) (fun _ _ _ _ => trivial)
        fun l s r s' hinv hresult _ hop => ?_
      obtain ⟨-, rfl⟩ := Prod.mk.inj (Option.some.inj hop)
      exact ⟨hinv.commit hd.jobIds.2 (hresult.ending hinv), ended_of_result hinv hresult⟩
    · refine triple persists_const (fun _ _ _ _ => trivial) fun l s r s' hinv _ _ hop => ?_
      obtain ⟨-, rfl⟩ := Prod.mk.inj (Option.some.inj hop)
      exact ⟨hinv.rollback, fun _ => written_rollback_self⟩
    · obtain ⟨e, he, hi⟩ := hinv.performed i j hj hid
      exact hnew e he hi

/-! ### Over every interleaving -/

omit [DecidableEq ι] in
theorem Inv.untouched (hd : Deliveries deliveries x db) (ho : Owner deliveries x db o) :
    Inv deliveries x db o [] (untouched db : Versions ι Row) where
  coherent := .untouched hd.consistent
  rows := by
    refine .untouched fun t r hr => ?_
    have howned := hd.consistent ownedInvoices
    cases t with
    | ownedInvoices =>
        refine ⟨fun htag => ?_, fun htag hx => ?_, fun i hmem => ho.only i r hr hmem⟩
        · obtain rfl := howned.eq_of_key hr ho.mem htag
          exact ho.found.imp id fun h => ⟨h.1, h.1⟩
        · rcases ho.found with hbound | ⟨-, hnone, -⟩
          · obtain rfl := howned.eq_of_clash hr ho.mem
              (by simp [metadata, uniqueConflict, hx, hbound])
            exact htag rfl
          · exact hnone r hr hx
    | transferJobs => exact .inl hr
    | webhookEvents => exact .inl hr
    | _ => trivial
  owned := by
    rw [committedRows_untouched]
    exact ⟨o, ho.mem, rfl⟩
  settled := by
    rw [committedRows_untouched]
    exact fun e he hx => absurd hx (hd.eventless e he).1
  backed := by
    rw [committedRows_untouched]
    exact fun j hj hx => absurd hx (hd.jobless j hj)
  performed := by
    rw [committedRows_untouched]
    exact fun i j hj hid => absurd hid (hd.jobIds.1 i j hj)

section
variable (hd : Deliveries deliveries x db) (hinv : Inv deliveries x db o l s)
include hd hinv
omit [DecidableEq ι]

theorem event_of_delivery {e : WebhookEventRow} (he : e ∈ committedRows s webhookEvents)
    (hid : e.id = (deliveries i).event.eventId) : e.invoiceId = some x := by
  rcases hinv.rows.of_committed he with hold | ⟨hx, -⟩
  · exact absurd hid ((hd.eventless e hold).2 i)
  · exact hx

theorem job_of_invoice {j : TransferJobRow} (hj : j ∈ committedRows s transferJobs)
    (hx : j.invoiceId = x) : ∃ i, j.id = (deliveries i).jobId := by
  rcases hinv.rows.of_committed hj with hold | ⟨-, hid⟩
  · exact absurd hx (hd.jobless j hold)
  · exact hid

theorem invoice_of_job {j : TransferJobRow} (hj : j ∈ committedRows s transferJobs)
    (hid : j.id = (deliveries i).jobId) : j.invoiceId = x := by
  rcases hinv.rows.of_committed hj with hold | ⟨hx, -⟩
  · exact absurd hid (hd.jobIds.1 i j hold)
  · exact hx

omit hd in
theorem job_unique {j j' : TransferJobRow} (hj : j ∈ committedRows s transferJobs)
    (hj' : j' ∈ committedRows s transferJobs) (hx : j.invoiceId = x) (hx' : j'.invoiceId = x) :
    j = j' :=
  (hinv.coherent.committedRows transferJobs).eq_of_clash hj hj'
    (by simp [metadata, uniqueConflict, hx, hx'])

end

theorem one_job {n : ℕ} (hn : 1 ≤ n) {deliveries : Fin n → Delivery}
    (hd : Deliveries deliveries x db) (ho : Owner deliveries x db o)
    {c : Config (Fin n) (SessionOp Row) SessionOp.Answer StoreError EventWriteResult
      (Versions (Fin n) Row)} (h : Runs (recordings deliveries) (.initial (untouched db)) c)
    {results : Fin n → EventWriteResult} (hdone : ∀ i, c.procs i = some (.done (results i))) :
    OneJob deliveries x results (committedRows c.state) := by
  obtain ⟨hinv, hall⟩ := (together_kept hd ho).ensured (.untouched hd ho)
    (runs_restricted_true h) fun i => atRest_untouched db
  have hended : ∀ i, Ended deliveries i (results i) c.state := by
    intro i
    have hi := hall i
    rw [hdone i] at hi
    exact hi _ _ .refl hinv
  -- the first recording has left an event, and that has left a job
  obtain ⟨j, hj, hx⟩ : Jobbed x c.state := by
    obtain ⟨e, he, hid⟩ := (hended ⟨0, hn⟩).stored
    rcases hinv.settled e he (event_of_delivery hd hinv he hid) with ⟨-, j, hj, -, hx⟩ | ⟨-, hjob⟩
    · exact ⟨j, hj, hx⟩
    · exact hjob
  have hjobs := hinv.coherent.committedRows transferJobs
  have hevents := hinv.coherent.committedRows webhookEvents
  constructor
  · rw [hjobs.filter_eq_singleton (fun a b ha hb => ?_) hj (by simpa using hx)]
    · rfl
    · simp [metadata, uniqueConflict, beq_iff_eq.mp ha, beq_iff_eq.mp hb]
  · obtain ⟨k, hk⟩ := job_of_invoice hd hinv hj hx
    refine ⟨k, ?_, fun i hi => ?_⟩
    · rcases (hended k).job with ⟨hqueued, -⟩ | ⟨-, hunqueued⟩
      · exact hqueued
      · exact absurd hk (hunqueued j hj)
    · rcases (hended i).job with ⟨-, j', hj', hid⟩ | ⟨hother, -⟩
      · obtain rfl := job_unique hinv hj hj' hx (invoice_of_job hd hinv hj' hid)
        exact hd.jobIds.2 (hid.symm.trans hk)
      · rw [hi] at hother
        rcases hother with hother | hother <;> cases hother
  · intro i hi
    rcases (hended i).job with ⟨hqueued, -⟩ | ⟨hother, -⟩
    · exact absurd hqueued hi
    · exact hother
  · intro i
    obtain ⟨e, he, hid⟩ := (hended i).stored
    rw [hevents.filter_eq_singleton (fun a b ha hb => ?_) he (by simpa using hid)]
    · rfl
    · exact metadata.clash_of_key webhookEvents a b
        ((beq_iff_eq.mp ha).trans (beq_iff_eq.mp hb).symm)
  · obtain ⟨e, he, hid, hex, hqueued⟩ := hinv.backed j hj hx
    have hsame : (committedRows c.state webhookEvents).filter (fun e : WebhookEventRow =>
        e.invoiceId == some x && e.outcome == .queued) =
          (committedRows c.state webhookEvents).filter fun r : WebhookEventRow => r.id == e.id := by
      refine List.filter_congr fun r hr => ?_
      rw [Bool.eq_iff_iff]
      constructor
      · intro hboth
        obtain ⟨hrx, hrq⟩ := Bool.and_eq_true_iff.mp hboth
        rcases hinv.settled r hr (beq_iff_eq.mp hrx) with ⟨-, j', hj', hevent, hx'⟩ | ⟨hother, -⟩
        · obtain rfl := job_unique hinv hj hj' hx hx'
          exact beq_iff_eq.mpr (hevent.symm.trans hid.symm)
        · rw [beq_iff_eq.mp hrq] at hother
          cases hother
      · intro heq
        obtain rfl := hevents.eq_of_key hr he (beq_iff_eq.mp heq)
        simp [hex, hqueued]
    rw [hsame, hevents.filter_eq_singleton (fun a b ha hb => ?_) he (by simp)]
    · rfl
    · exact metadata.clash_of_key webhookEvents a b
        ((beq_iff_eq.mp ha).trans (beq_iff_eq.mp hb).symm)

end

/-! ### Three deliveries of two events -/

def anOwner : OwnedInvoiceRow where
  tag := "t"
  providerInvoiceId := none
  source := "smoke"
  draftId := none
  createdAt := 0
  updatedAt := 0

def ownedTag : Database Row
  | .ownedInvoices => [anOwner]
  | _ => []

/-- The second delivers the event of the first again. -/
def threeDeliveries (i : Fin 3) : Delivery where
  event :=
    { eventId := if i = 2 then "f" else "e", invoiceId := "x", amount := 100, fee := 0
      workspaceId := "w", tags := ["t"] }
  payloadHash := if i = 2 then "g" else "h"
  receivedAt := 1
  netAmount := some 100
  jobId := match i with
    | 0 => "j"
    | 1 => "k"
    | 2 => "m"

theorem threeDeliveries_deliveries : Deliveries threeDeliveries "x" ownedTag where
  consistent := by decide
  matched := ⟨by simp [ownedTag], by simp [ownedTag], by simp [ownedTag], by simp [ownedTag]⟩
  invoice _ := rfl
  net _ := ⟨100, rfl, rfl⟩
  jobless := by simp [ownedTag]
  eventless := by simp [ownedTag]
  jobIds := by
    have hdistinct : ∀ i k : Fin 3,
        (threeDeliveries i).jobId = (threeDeliveries k).jobId → i = k := by decide
    exact ⟨by simp [ownedTag], fun i k => hdistinct i k⟩

theorem anOwner_owner : Owner threeDeliveries "x" ownedTag anOwner where
  mem := by simp [ownedTag]
  found := .inr ⟨rfl, by simp [ownedTag, anOwner], fun _ => by simp [anOwner, threeDeliveries]⟩
  only := by simp [ownedTag]

def threeResults : Fin 3 → EventWriteResult
  | 0 => .queued
  | 1 => .duplicateEvent
  | 2 => .duplicateInvoice

/-- Two events are stored at once, the redelivery waits for the first of them. -/
theorem one_job_threeDeliveries :
    ∃ c : Config (Fin 3) (SessionOp Row) SessionOp.Answer StoreError EventWriteResult
        (Versions (Fin 3) Row),
      OneJob threeDeliveries "x" threeResults (committedRows c.state) := by
  have hends : (playAll (performIf metadata fun _ _ _ _ => True) (.initial (untouched ownedTag))
      (inOrder (fun i => (threeDeliveries i).txn)
        [0, 2, 0, 2, 0, 2, 0, 0, 0, 0, 2, 2, 2, 2, 1, 1, 1])).map (fun c =>
          (List.finRange 3).map (returned c)) =
      some ((List.finRange 3).map fun i => some (threeResults i)) := by
    decide +kernel
  obtain ⟨c, hplay, hc⟩ := Option.map_eq_some_iff.mp hends
  have hreturned : ∀ i, returned c i = some (threeResults i) := fun i =>
    List.map_inj_left.mp hc i (List.mem_finRange i)
  exact ⟨c, one_job (by decide) threeDeliveries_deliveries anOwner_owner
    (runs_of_restricted (inOrder_runs hplay)) fun i => returned_eq_some (hreturned i)⟩

end StarkbankTrial.ConcurrentDeliveries
